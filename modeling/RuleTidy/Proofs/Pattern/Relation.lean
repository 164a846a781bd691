import RuleTidy.Pattern.Relation
import RuleTidy.Proofs.Chain

/-! What is known of two patterns once their relation is. -/

namespace RuleTidy.Pattern

variable {asts : AstSource Id} {language first second : String}

theorem returnPairing_eq_some_iff {a b : Ast} {side : Side} {e : Expression} :
    returnPairing a b = some (side, e) ↔
      (a.leading == b.leading) = true ∧ (side.pick a b).last? = some (.return (some e)) ∧
        ∃ s, (side.other.pick a b).last? = some s ∧ s.yields e = true := by
  unfold returnPairing
  cases hleading : a.leading == b.leading with
  | false => simp [bne, hleading]
  | true =>
      simp only [bne, hleading, Bool.not_true, Bool.false_eq_true, if_false, true_and]
      constructor
      · intro h
        split at h
        · next e' s hfirst hsecond =>
            obtain ⟨hyields, heq⟩ := Option.ite_none_right_eq_some.1 h
            obtain ⟨rfl, rfl⟩ := Prod.mk.inj (Option.some.inj heq)
            exact ⟨hfirst, s, hsecond, hyields⟩
        · next s e' _ hfirst hsecond =>
            obtain ⟨hyields, heq⟩ := Option.ite_none_right_eq_some.1 h
            obtain ⟨rfl, rfl⟩ := Prod.mk.inj (Option.some.inj heq)
            exact ⟨hsecond, s, hfirst, hyields⟩
        · cases h
      · rintro ⟨hreturns, s, hother, hyields⟩
        -- What yields an expression is no return statement, so that only one arm fits.
        have hs : ∀ value, s ≠ .return value := by
          rintro value rfl
          cases hyields
        cases side with
        | first => simp_all [Side.pick, Side.other]
        | second =>
            simp only [Side.pick, Side.other] at hreturns hother
            rw [hreturns, hother]
            cases s with
            | «return» value => exact absurd rfl (hs value)
            | expression value => simp [hyields]
            | other json => simp [hyields]

theorem returnPairing_eq_some {a b : Ast} {side : Side} {e : Expression}
    (h : returnPairing a b = some (side, e)) :
    (side.pick a b).last?.bind (·.returned?) = some e := by
  rw [(returnPairing_eq_some_iff.1 h).2.1]
  rfl

/-- What decides the relation of two patterns with the trees `a` and `b`. -/
inductive Decides (asts : AstSource Id) (language first second : String) (a b : Ast) :
    Relation → Prop
  | same (equal : (a == b) = true) : Decides asts language first second a b .same
  | unpaired (differ : (a == b) = false) (pairing : returnPairing a b = none) :
      Decides asts language first second a b .different
  | noKeyword {side : Side} {e : Expression} (differ : (a == b) = false)
      (pairing : returnPairing a b = some (side, e))
      (strip : stripReturn? (side.pick first second) = none) :
      Decides asts language first second a b .different
  | otherTree {side : Side} {e : Expression} {rewritten : String} {rest : Ast}
      (differ : (a == b) = false) (pairing : returnPairing a b = some (side, e))
      (strip : stripReturn? (side.pick first second) = some rewritten)
      (found : (asts language rewritten).run.run = .ok rest)
      (statements : (rest.statements == (side.pick a b).leading ++ [.expression e]) = false) :
      Decides asts language first second a b .different
  | paired {side : Side} {e : Expression} {rewritten : String} {rest : Ast}
      (differ : (a == b) = false) (pairing : returnPairing a b = some (side, e))
      (strip : stripReturn? (side.pick first second) = some rewritten)
      (found : (asts language rewritten).run.run = .ok rest)
      (statements : (rest.statements == (side.pick a b).leading ++ [.expression e]) = true) :
      Decides asts language first second a b (.returnPaired side rewritten)

theorem classify_eq_ok {relation : Relation} :
    (classify asts language first second).run.run = .ok relation ↔
      ∃ a b, (asts language first).run.run = .ok a ∧ (asts language second).run.run = .ok b ∧
        Decides asts language first second a b relation := by
  constructor
  · intro h
    obtain ⟨a, ha, h⟩ := run_bind_eq_ok.1 h
    obtain ⟨b, hb, h⟩ := run_bind_eq_ok.1 h
    refine ⟨a, b, ha, hb, ?_⟩
    split at h
    · next hsame => exact run_pure_eq_ok.1 h ▸ .same hsame
    · next hdiffer =>
        have hdiffer : (a == b) = false := by simpa using hdiffer
        split at h
        · next hpairing => exact run_pure_eq_ok.1 h ▸ .unpaired hdiffer hpairing
        · next side e hpairing =>
            split at h
            · next hstrip => exact run_pure_eq_ok.1 h ▸ .noKeyword hdiffer hpairing hstrip
            · next rewritten hstrip =>
                obtain ⟨rest, hrest, h⟩ := run_bind_eq_ok.1 h
                split at h
                · next hstatements =>
                    exact run_pure_eq_ok.1 h ▸ .paired hdiffer hpairing hstrip hrest hstatements
                · next hstatements =>
                    exact run_pure_eq_ok.1 h ▸
                      .otherTree hdiffer hpairing hstrip hrest (by simpa using hstatements)
  · rintro ⟨a, b, ha, hb, hdecides⟩
    refine run_bind_eq_ok.2 ⟨a, ha, run_bind_eq_ok.2 ⟨b, hb, ?_⟩⟩
    cases hdecides with
    | same hsame => simp [hsame]
    | unpaired hdiffer hpairing => simp [hdiffer, hpairing]
    | noKeyword hdiffer hpairing hstrip => simp [hdiffer, hpairing, hstrip]
    | otherTree hdiffer hpairing hstrip hrest hstatements =>
        simp only [hdiffer, hpairing, hstrip, Bool.false_eq_true, if_false]
        exact run_bind_eq_ok.2 ⟨_, hrest, by simp [hstatements]⟩
    | paired hdiffer hpairing hstrip hrest hstatements =>
        simp only [hdiffer, hpairing, hstrip, Bool.false_eq_true, if_false]
        exact run_bind_eq_ok.2 ⟨_, hrest, by simp [hstatements]⟩

theorem classify_eq_same (h : (classify asts language first second).run.run = .ok .same) :
    ∃ a b, (asts language first).run.run = .ok a ∧ (asts language second).run.run = .ok b ∧
      a == b := by
  obtain ⟨a, b, ha, hb, hdecides⟩ := classify_eq_ok.1 h
  cases hdecides with
  | same hsame => exact ⟨a, b, ha, hb, hsame⟩

theorem classify_eq_different
    (h : (classify asts language first second).run.run = .ok .different) :
    ∃ a b, (asts language first).run.run = .ok a ∧ (asts language second).run.run = .ok b ∧
      (a == b) = false := by
  obtain ⟨a, b, ha, hb, hdecides⟩ := classify_eq_ok.1 h
  refine ⟨a, b, ha, hb, ?_⟩
  cases hdecides <;> assumption

theorem classify_eq_returnPaired {side : Side} {rewritten : String}
    (h : (classify asts language first second).run.run = .ok (.returnPaired side rewritten)) :
    hasReturn (side.pick first second) = true ∧
      ∃ ast e, (asts language (side.pick first second)).run.run = .ok ast ∧
        ast.last?.bind (·.returned?) = some e := by
  obtain ⟨a, b, ha, hb, hdecides⟩ := classify_eq_ok.1 h
  cases hdecides with
  | @paired _ e _ _ _ hpairing hstrip _ _ =>
      constructor
      · obtain ⟨parts, hparts, -⟩ := Option.map_eq_some_iff.1 hstrip
        rw [hasReturn, hparts]
        rfl
      · refine ⟨side.pick a b, e, ?_, returnPairing_eq_some hpairing⟩
        cases side with
        | first => exact ha
        | second => exact hb

/-! A keyword is lost once. -/

theorem exists_getLast?_of_beq {statements leading : List Statement} {e : Expression}
    (h : (statements == leading ++ [.expression e]) = true) :
    ∃ e', statements.getLast? = some (.expression e') := by
  induction leading generalizing statements with
  | nil =>
      cases statements with
      | nil => cases h
      | cons s rest =>
          obtain ⟨hs, hrest⟩ := Bool.and_eq_true_iff.1 h
          cases rest with
          | cons next rest => cases hrest
          | nil =>
              cases s with
              | expression e' => exact ⟨e', rfl⟩
              | «return» value => cases value <;> cases hs
              | other json => cases hs
  | cons first leading ih =>
      cases statements with
      | nil => cases h
      | cons s rest =>
          obtain ⟨e', hlast⟩ := ih (Bool.and_eq_true_iff.1 h).2
          exact ⟨e', by rw [List.getLast?_cons, hlast, Option.getD_some]⟩

/-- A pattern that ends in a return statement with a value, and its text without the keyword, which
is a pattern that ends in an expression. -/
structure Strips (asts : AstSource Id) (language text rest : String) : Prop where
  strip : stripReturn? text = some rest
  returns : ∃ ast e, (asts language text).run.run = .ok ast ∧ ast.last?.bind (·.returned?) = some e
  evaluates : ∃ ast e, (asts language rest).run.run = .ok ast ∧ ast.last? = some (.expression e)

theorem not_strips_of_last? {text rest : String} {ast : Ast} {e : Expression}
    (hast : (asts language text).run.run = .ok ast) (hlast : ast.last? = some (.expression e)) :
    ¬Strips asts language text rest := by
  rintro ⟨-, ⟨ast', e', hast', hreturned⟩, -⟩
  obtain rfl := Except.ok.inj (hast.symm.trans hast')
  rw [hlast] at hreturned
  cases hreturned

theorem strips_of_classify {side : Side} {rewritten : String}
    (h : (classify asts language first second).run.run = .ok (.returnPaired side rewritten)) :
    Strips asts language (side.pick first second) rewritten := by
  obtain ⟨-, hreturns⟩ := classify_eq_returnPaired h
  obtain ⟨_, _, -, -, hdecides⟩ := classify_eq_ok.1 h
  cases hdecides with
  | @paired _ _ _ rest _ _ hstrip hrest hstatements =>
      obtain ⟨e', hlast⟩ := exists_getLast?_of_beq hstatements
      exact ⟨hstrip, hreturns, rest, e', hrest, hlast⟩

end RuleTidy.Pattern
