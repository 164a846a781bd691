import RuleTidy.Pattern.Ast
import RuleTidy.Proofs.Json.Value

/-! Equality of syntax trees. Expressions and statements are compared by the JSON that is left in
them, so that equal ones need not be identical, but equality of lists of statements is symmetric
and transitive. -/

namespace RuleTidy.Pattern

section Lists

variable {α : Type} [BEq α] [PartialEquivBEq α]

theorem beq_symm_list {as bs : List α} (h : (as == bs) = true) : (bs == as) = true := by
  induction as generalizing bs with
  | nil =>
      cases bs with
      | nil => rfl
      | cons _ _ => cases h
  | cons a as ih =>
      cases bs with
      | nil => cases h
      | cons b bs =>
          obtain ⟨hfirst, hrest⟩ := Bool.and_eq_true_iff.1 h
          exact Bool.and_eq_true_iff.2 ⟨BEq.symm hfirst, ih hrest⟩

theorem beq_trans_list {as bs cs : List α} (hab : (as == bs) = true) (hbc : (bs == cs) = true) :
    (as == cs) = true := by
  induction as generalizing bs cs with
  | nil =>
      cases bs with
      | nil => exact hbc
      | cons _ _ => cases hab
  | cons a as ih =>
      cases bs with
      | nil => cases hab
      | cons b bs =>
          cases cs with
          | nil => cases hbc
          | cons c cs =>
              obtain ⟨hfirst, hrest⟩ := Bool.and_eq_true_iff.1 hab
              obtain ⟨hfirst', hrest'⟩ := Bool.and_eq_true_iff.1 hbc
              exact Bool.and_eq_true_iff.2 ⟨BEq.trans hfirst hfirst', ih hrest hrest'⟩

instance instPartialEquivBEqList : PartialEquivBEq (List α) where
  symm := beq_symm_list
  trans := beq_trans_list

end Lists

namespace Expression

theorem beq_symm : ∀ {a b : Expression}, Expression.beq a b = true → Expression.beq b a = true
  | .assign target value, .assign target' value', h => by
      simp only [Expression.beq, Bool.and_eq_true] at *
      exact ⟨BEq.symm h.1, beq_symm h.2⟩
  | .other _, .other _, h => Json.beq_symm h

theorem beq_trans : ∀ {a b c : Expression}, Expression.beq a b = true →
    Expression.beq b c = true → Expression.beq a c = true
  | .assign target value, .assign target' value', .assign target'' value'', hab, hbc => by
      simp only [Expression.beq, Bool.and_eq_true] at *
      exact ⟨BEq.trans hab.1 hbc.1, beq_trans hab.2 hbc.2⟩
  | .other _, .other _, .other _, hab, hbc => Json.beq_trans hab hbc

instance : PartialEquivBEq Expression where
  symm := beq_symm
  trans := beq_trans

def assignments : Expression → Nat
  | .assign _ value => value.assignments + 1
  | .other _ => 0

theorem assignments_eq : ∀ {a b : Expression}, Expression.beq a b = true →
    a.assignments = b.assignments
  | .assign _ value, .assign _ value', h => by
      have hvalue : value.assignments = value'.assignments :=
        assignments_eq (Bool.and_eq_true_iff.1 h).2
      rw [assignments, assignments, hvalue]
  | .other _, .other _, _ => rfl

end Expression

namespace Statement

theorem beq_symm : ∀ {a b : Statement}, Statement.beq a b = true → Statement.beq b a = true
  | .return none, .return none, _ => rfl
  | .return (some _), .return (some _), h => Expression.beq_symm h
  | .expression _, .expression _, h => Expression.beq_symm h
  | .other _, .other _, h => Json.beq_symm h

theorem beq_trans : ∀ {a b c : Statement}, Statement.beq a b = true →
    Statement.beq b c = true → Statement.beq a c = true
  | .return none, .return none, .return none, _, _ => rfl
  | .return (some _), .return (some _), .return (some _), hab, hbc => Expression.beq_trans hab hbc
  | .expression _, .expression _, .expression _, hab, hbc => Expression.beq_trans hab hbc
  | .other _, .other _, .other _, hab, hbc => Json.beq_trans hab hbc

instance : PartialEquivBEq Statement where
  symm := beq_symm
  trans := beq_trans

end Statement

namespace Ast

/-- The last statement of a tree returns, with a value or without. -/
def EndsInReturn (ast : Ast) : Prop := ∃ value, ast.last? = some (.return value)

theorem statements_eq {ast : Ast} {last : Statement} (h : ast.last? = some last) :
    ast.statements = ast.leading ++ [last] := by
  obtain ⟨before, hbefore⟩ := List.getLast?_eq_some_iff.1 h
  rw [leading, hbefore, List.dropLast_concat]

end Ast

end RuleTidy.Pattern
