import RuleTidy.Proofs.Pattern.Ast
import RuleTidy.Proofs.Pattern.Relation

/-! Patterns that one of them can stand for. After the same statements, one pattern returns what the
other evaluates or assigns, and without its keyword it evaluates that too. Every pair that is found
is of this kind, and all of them are found but for those whose other pattern evaluates an
assignment: an assignment is compared by its value, and never as a whole. -/

namespace RuleTidy.Pattern

variable {asts : AstSource Id} {language first second rewritten : String} {side : Side}
  {a b : Ast} {e : Expression}

theorem Statement.yields_iff {s : Statement} :
    s.yields e = true ↔
      (∃ json, s = .expression (.other json) ∧ (Expression.other json == e) = true) ∨
        ∃ target value, s = .expression (.assign target value) ∧ (value == e) = true := by
  constructor
  · intro h
    cases s with
    | «return» value => cases h
    | other json => cases h
    | expression stated =>
        cases stated with
        | other json => exact .inl ⟨json, rfl, h⟩
        | assign target value => exact .inr ⟨target, value, rfl, h⟩
  · rintro (⟨json, rfl, h⟩ | ⟨target, value, rfl, h⟩)
    · exact h
    · exact h

/-- The trees of two patterns and of what the first becomes without its keyword, when that can
stand for both. -/
structure Merges (returning other rest : Ast) (e : Expression) : Prop where
  returns : returning.last? = some (.return (some e))
  leading : (returning.leading == other.leading) = true
  evaluates : (rest.statements == returning.leading ++ [.expression e]) = true
  stated : (∃ stated, other.last? = some (.expression stated) ∧ (stated == e) = true ∧
      (other.statements == rest.statements) = true) ∨
    ∃ target value, other.last? = some (.expression (.assign target value)) ∧ (value == e) = true

theorem statements_beq {returning other rest : Ast} {stated : Expression}
    (hleading : (returning.leading == other.leading) = true)
    (hrest : (rest.statements == returning.leading ++ [.expression e]) = true)
    (hother : other.last? = some (.expression stated)) (hstated : (stated == e) = true) :
    (other.statements == rest.statements) = true := by
  have hconcat : (other.leading ++ [Statement.expression stated] ==
      returning.leading ++ [.expression e]) = true := by
    rw [List.concat_beq_concat, Bool.and_eq_true]
    exact ⟨BEq.symm hleading, hstated⟩
  rw [Ast.statements_eq hother]
  exact BEq.trans hconcat (BEq.symm hrest)

theorem leading_pick (side : Side) (h : (a.leading == b.leading) = true) :
    ((side.pick a b).leading == (side.other.pick a b).leading) = true := by
  cases side with
  | first => exact h
  | second => exact BEq.symm h

/-- Patterns are paired only if one can stand for both, and exactly one of them ends in a return
statement. -/
theorem merges_of_classify
    (h : (classify asts language first second).run.run = .ok (.returnPaired side rewritten)) :
    ∃ a b rest e, (asts language first).run.run = .ok a ∧
      (asts language second).run.run = .ok b ∧
      stripReturn? (side.pick first second) = some rewritten ∧
      (asts language rewritten).run.run = .ok rest ∧
      Merges (side.pick a b) (side.other.pick a b) rest e ∧
      (side.pick a b).EndsInReturn ∧ ¬(side.other.pick a b).EndsInReturn := by
  obtain ⟨a, b, ha, hb, hdecides⟩ := classify_eq_ok.1 h
  cases hdecides with
  | @paired _ e _ rest _ hpairing hstrip hrest hstatements =>
      obtain ⟨hleading, hreturns, s, hother, hyields⟩ := returnPairing_eq_some_iff.1 hpairing
      have hsides := leading_pick side hleading
      refine ⟨a, b, rest, e, ha, hb, hstrip, hrest, ⟨hreturns, hsides, hstatements, ?_⟩,
        ⟨some e, hreturns⟩, ?_⟩
      · rcases Statement.yields_iff.1 hyields with
          ⟨json, rfl, hstated⟩ | ⟨target, value, rfl, hvalue⟩
        · exact .inl ⟨.other json, hother, hstated,
            statements_beq hsides hstatements hother hstated⟩
        · exact .inr ⟨target, value, hother, hvalue⟩
      · rintro ⟨value, hvalue⟩
        obtain rfl := Option.some.inj (hother.symm.trans hvalue)
        cases hyields

def assignmentAsts : AstSource Id := fun _ text =>
  let name (text : String) : Json := .object [("Id", .string text)]
  let assign (target value : Json) : Json :=
    .object [("Assign", .array [target, .string "=", value])]
  let stated (value : Json) : Json := .object [("ExprStmt", .array [value, .string ";"])]
  let assignment := assign (name "x") (name "y")
  pure ⟨.object [("Ss", .array [stated (name "f"),
    if text = "f\nreturn x = y" then
      .object [("Return", .array [.string "return", .object [("some", assignment)]])]
    else if text = "f\nz = x = y" then stated (assign (name "z") assignment)
    else stated assignment])]⟩

theorem merges_of_classify_assigned :
    (classify assignmentAsts "javascript" "f\nz = x = y" "f\nreturn x = y").run.run =
        .ok (.returnPaired .second "f\nx = y") ∧
      ∃ a b rest e, (assignmentAsts "javascript" "f\nz = x = y").run.run = .ok a ∧
        (assignmentAsts "javascript" "f\nreturn x = y").run.run = .ok b ∧
        stripReturn? "f\nreturn x = y" = some "f\nx = y" ∧
        (assignmentAsts "javascript" "f\nx = y").run.run = .ok rest ∧
        Merges b a rest e ∧ b.EndsInReturn ∧ ¬a.EndsInReturn := by
  have h : (classify assignmentAsts "javascript" "f\nz = x = y" "f\nreturn x = y").run.run =
      .ok (.returnPaired .second "f\nx = y") := by rfl
  exact ⟨h, merges_of_classify h⟩

/-! Which of the patterns that can be merged are found. -/

def Expression.isAssignment : Expression → Bool
  | .assign _ _ => true
  | .other _ => false

theorem Expression.beq_assign_self {target : Json} {value : Expression}
    (h : (value == e) = true) : (Expression.assign target value == e) = false := by
  cases hself : Expression.assign target value == e with
  | false => rfl
  | true =>
      have hvalue : value.assignments = e.assignments := assignments_eq h
      have hassign : value.assignments + 1 = e.assignments := assignments_eq hself
      omega

theorem returnPairing_eq_none {stated : Expression}
    (hreturns : (side.pick a b).last? = some (.return (some e)))
    (hother : (side.other.pick a b).last? = some (.expression stated))
    (hyields : (Statement.expression stated).yields e = false) : returnPairing a b = none := by
  cases hpairing : returnPairing a b with
  | none => rfl
  | some found =>
      obtain ⟨side', e'⟩ := found
      obtain ⟨-, hreturns', s, hother', hyields'⟩ := returnPairing_eq_some_iff.1 hpairing
      by_cases hside : side' = side
      · subst hside
        obtain rfl : e' = e := by
          simpa using hreturns'.symm.trans hreturns
        obtain rfl := Option.some.inj (hother'.symm.trans hother)
        rw [hyields] at hyields'
        cases hyields'
      · have hswap : side'.pick a b = side.other.pick a b := by
          cases side <;> cases side' <;> simp_all [Side.pick, Side.other]
        rw [hswap, hother] at hreturns'
        cases hreturns'

/-- Patterns that can be merged are paired, unless the other pattern evaluates an assignment that is
what the first returns. Those are taken for different. -/
theorem classify_of_returns {rest : Ast} {stated : Expression}
    (ha : (asts language first).run.run = .ok a) (hb : (asts language second).run.run = .ok b)
    (hdiffer : (a == b) = false) (hleading : (a.leading == b.leading) = true)
    (hreturns : (side.pick a b).last? = some (.return (some e)))
    (hother : (side.other.pick a b).last? = some (.expression stated))
    (hstated : (stated == e) = true ∨
      ∃ target value, stated = .assign target value ∧ (value == e) = true)
    (hstrip : stripReturn? (side.pick first second) = some rewritten)
    (hrest : (asts language rewritten).run.run = .ok rest)
    (hevaluates : (rest.statements == (side.pick a b).leading ++ [.expression e]) = true) :
    (classify asts language first second).run.run =
      .ok (if stated.isAssignment && stated == e then .different
        else .returnPaired side rewritten) := by
  have hpaired : (Statement.expression stated).yields e = true →
      (classify asts language first second).run.run = .ok (.returnPaired side rewritten) := by
    intro hyields
    have hpairing := returnPairing_eq_some_iff.2 ⟨hleading, hreturns, _, hother, hyields⟩
    exact classify_eq_ok.2 ⟨a, b, ha, hb, .paired hdiffer hpairing hstrip hrest hevaluates⟩
  cases stated with
  | other json =>
      rcases hstated with hstated | ⟨target, value, heq, -⟩
      · exact hpaired hstated
      · cases heq
  | assign target value =>
      cases hvalue : value == e with
      | true =>
          rw [Expression.beq_assign_self hvalue]
          exact hpaired hvalue
      | false =>
          have hself : (Expression.assign target value == e) = true := by
            rcases hstated with hself | ⟨target', value', heq, hvalue'⟩
            · exact hself
            · obtain ⟨-, rfl⟩ := Expression.assign.inj heq
              exact absurd (hvalue.symm.trans hvalue') (by decide)
          have hpairing := returnPairing_eq_none hreturns hother hvalue
          rw [hself]
          exact classify_eq_ok.2 ⟨a, b, ha, hb, .unpaired hdiffer hpairing⟩

/-- An assignment of what the other pattern returns, which is an assignment too. -/
theorem classify_of_returns_assigned :
    ∃ a b rest e stated, (assignmentAsts "javascript" "f\nz = x = y").run.run = .ok a ∧
      (assignmentAsts "javascript" "f\nreturn x = y").run.run = .ok b ∧
      (a == b) = false ∧ (a.leading == b.leading) = true ∧
      b.last? = some (.return (some e)) ∧ a.last? = some (.expression stated) ∧
      (∃ target value, stated = .assign target value ∧ (value == e) = true) ∧
      stripReturn? "f\nreturn x = y" = some "f\nx = y" ∧
      (assignmentAsts "javascript" "f\nx = y").run.run = .ok rest ∧
      (rest.statements == b.leading ++ [.expression e]) = true ∧
      (classify assignmentAsts "javascript" "f\nz = x = y" "f\nreturn x = y").run.run =
        .ok (.returnPaired .second "f\nx = y") := by
  have h := @classify_of_returns assignmentAsts "javascript" "f\nz = x = y" "f\nreturn x = y"
    "f\nx = y" .second _ _ _ _ _ rfl rfl rfl rfl rfl rfl (.inr ⟨_, _, rfl, rfl⟩) rfl rfl rfl
  exact ⟨_, _, _, _, _, rfl, rfl, rfl, rfl, rfl, rfl, ⟨_, _, rfl, rfl⟩, rfl, rfl, rfl, h⟩

/-- A pattern that evaluates the assignment that the other returns is not paired with it. -/
theorem not_classify_eq_returnPaired :
    ¬∀ (asts : AstSource Id) (language first second rewritten : String) (side : Side)
      (a b rest : Ast) (e stated : Expression),
      (asts language first).run.run = .ok a → (asts language second).run.run = .ok b →
      (a == b) = false → (a.leading == b.leading) = true →
      (side.pick a b).last? = some (.return (some e)) →
      (side.other.pick a b).last? = some (.expression stated) →
      ((stated == e) = true ∨
        ∃ target value, stated = .assign target value ∧ (value == e) = true) →
      stripReturn? (side.pick first second) = some rewritten →
      (asts language rewritten).run.run = .ok rest →
      (rest.statements == (side.pick a b).leading ++ [.expression e]) = true →
      (classify asts language first second).run.run = .ok (.returnPaired side rewritten) := by
  intro h
  have hpaired := h assignmentAsts "javascript" "f\nreturn x = y" "f\nx = y" "f\nx = y" .first
    _ _ _ _ _ rfl rfl rfl rfl rfl rfl (.inl rfl) rfl rfl rfl
  have hdifferent : (classify assignmentAsts "javascript" "f\nreturn x = y" "f\nx = y").run.run =
      .ok .different := rfl
  cases hdifferent.symm.trans hpaired

end RuleTidy.Pattern
