import RuleTidy.Proofs.Pattern.Ast
import RuleTidy.Proofs.Pattern.Relation

/-! The order of two patterns does not matter to their relation. What decides it for one order
decides it for the other, and only the side of the keyword changes. -/

namespace RuleTidy.Pattern

variable {asts : AstSource Id} {language first second : String} {a b : Ast}

def Relation.swap : Relation → Relation
  | .same => .same
  | .returnPaired withReturn rewritten => .returnPaired withReturn.other rewritten
  | .different => .different

theorem Relation.swap_swap (relation : Relation) : relation.swap.swap = relation := by
  cases relation <;> simp [swap]

theorem Side.other_pick {α : Type} (side : Side) (a b : α) :
    side.other.pick a b = side.pick b a := by
  cases side <;> rfl

theorem returnPairing_swap {side : Side} {e : Expression}
    (h : returnPairing a b = some (side, e)) : returnPairing b a = some (side.other, e) := by
  obtain ⟨hleading, hreturns, s, hother, hyields⟩ := returnPairing_eq_some_iff.1 h
  refine returnPairing_eq_some_iff.2 ⟨BEq.symm hleading, ?_, s, ?_, hyields⟩
  · rw [Side.other_pick]
    exact hreturns
  · rw [Side.other_other]
    rw [Side.other_pick] at hother
    exact hother

theorem returnPairing_swap_eq_none (h : returnPairing a b = none) : returnPairing b a = none := by
  cases hswap : returnPairing b a with
  | none => rfl
  | some found =>
      have hback := returnPairing_swap hswap
      rw [h] at hback
      cases hback

theorem beq_eq_false_symm (h : (a == b) = false) : (b == a) = false := by
  cases hswap : b == a with
  | false => rfl
  | true => exact absurd (h.symm.trans (Json.beq_symm hswap)) (by decide)

theorem Decides.swap {relation : Relation} (h : Decides asts language first second a b relation) :
    Decides asts language second first b a relation.swap := by
  cases h with
  | same hsame => exact .same (Json.beq_symm hsame)
  | unpaired hdiffer hpairing =>
      exact .unpaired (beq_eq_false_symm hdiffer) (returnPairing_swap_eq_none hpairing)
  | noKeyword hdiffer hpairing hstrip =>
      refine .noKeyword (beq_eq_false_symm hdiffer) (returnPairing_swap hpairing) ?_
      rwa [Side.other_pick]
  | otherTree hdiffer hpairing hstrip hrest hstatements =>
      refine .otherTree (beq_eq_false_symm hdiffer) (returnPairing_swap hpairing) ?_ hrest ?_
      · rwa [Side.other_pick]
      · rwa [Side.other_pick]
  | paired hdiffer hpairing hstrip hrest hstatements =>
      refine .paired (beq_eq_false_symm hdiffer) (returnPairing_swap hpairing) ?_ hrest ?_
      · rwa [Side.other_pick]
      · rwa [Side.other_pick]

theorem classify_swap {relation : Relation}
    (h : (classify asts language first second).run.run = .ok relation) :
    (classify asts language second first).run.run = .ok relation.swap := by
  obtain ⟨a, b, ha, hb, hdecides⟩ := classify_eq_ok.1 h
  exact classify_eq_ok.2 ⟨b, a, hb, ha, hdecides.swap⟩

theorem classify_swap_eq_error {e : LookupError}
    (h : (classify asts language first second).run.run = .error e) :
    ∃ e', (classify asts language second first).run.run = .error e' := by
  cases hswap : (classify asts language second first).run.run with
  | error e' => exact ⟨e', rfl⟩
  | ok relation =>
      rw [classify_swap hswap] at h
      cases h

/-- Two patterns have the same relation in both orders, up to the side of the keyword, and there is
none in one order exactly if there is none in the other. -/
theorem classify_symmetric (asts : AstSource Id) (language first second : String) :
    (∀ relation, (classify asts language first second).run.run = .ok relation ↔
      (classify asts language second first).run.run = .ok relation.swap) ∧
    ((∃ e, (classify asts language first second).run.run = .error e) ↔
      ∃ e, (classify asts language second first).run.run = .error e) := by
  refine ⟨fun relation => ⟨classify_swap, fun h => ?_⟩, ?_, ?_⟩
  · have hback := classify_swap h
    rwa [Relation.swap_swap] at hback
  · rintro ⟨e, h⟩
    exact classify_swap_eq_error h
  · rintro ⟨e, h⟩
    exact classify_swap_eq_error h

end RuleTidy.Pattern
