import RuleTidy.Json.Value

/-! Equality of JSON values is symmetric and transitive. Equal numbers need not be identical, since
there are two zeros. -/

namespace RuleTidy

namespace Number

theorem beq_symm : ∀ {a b : Number}, Number.beq a b = true → Number.beq b a = true
  | .integer a, .integer b, h => by
      simp only [Number.beq, beq_iff_eq] at *
      exact h.symm
  | .real a, .real b, h => (Binary64.beq_comm b a).trans h

theorem beq_trans : ∀ {a b c : Number}, Number.beq a b = true → Number.beq b c = true →
    Number.beq a c = true
  | .integer a, .integer b, .integer c, hab, hbc => by
      simp only [Number.beq, beq_iff_eq] at *
      exact hab.trans hbc
  | .real a, .real b, .real c, hab, hbc => Binary64.beq_trans hab hbc

end Number

namespace Json

mutual

theorem beq_symm : ∀ {a b : Json}, Json.beq a b = true → Json.beq b a = true
  | .null, .null, _ => rfl
  | .bool a, .bool b, h => by
      simp only [Json.beq, beq_iff_eq] at *
      exact h.symm
  | .number _, .number _, h => Number.beq_symm h
  | .string a, .string b, h => by
      simp only [Json.beq, beq_iff_eq] at *
      exact h.symm
  | .array _, .array _, h => beqItems_symm h
  | .object _, .object _, h => beqEntries_symm h

theorem beqItems_symm : ∀ {as bs : List Json}, beqItems as bs = true → beqItems bs as = true
  | [], [], _ => rfl
  | a :: as, b :: bs, h => by
      simp only [beqItems, Bool.and_eq_true] at *
      exact ⟨beq_symm h.1, beqItems_symm h.2⟩

theorem beqEntries_symm : ∀ {as bs : List (String × Json)},
    beqEntries as bs = true → beqEntries bs as = true
  | [], [], _ => rfl
  | (k, a) :: as, (l, b) :: bs, h => by
      simp only [beqEntries, Bool.and_eq_true, beq_iff_eq] at *
      exact ⟨⟨h.1.1.symm, beq_symm h.1.2⟩, beqEntries_symm h.2⟩

end

mutual

theorem beq_trans : ∀ {a b c : Json}, Json.beq a b = true → Json.beq b c = true →
    Json.beq a c = true
  | .null, .null, .null, _, _ => rfl
  | .bool a, .bool b, .bool c, hab, hbc => by
      simp only [Json.beq, beq_iff_eq] at *
      exact hab.trans hbc
  | .number a, .number b, .number c, hab, hbc => Number.beq_trans hab hbc
  | .string a, .string b, .string c, hab, hbc => by
      simp only [Json.beq, beq_iff_eq] at *
      exact hab.trans hbc
  | .array a, .array b, .array c, hab, hbc => beqItems_trans hab hbc
  | .object a, .object b, .object c, hab, hbc => beqEntries_trans hab hbc

theorem beqItems_trans : ∀ {as bs cs : List Json}, beqItems as bs = true →
    beqItems bs cs = true → beqItems as cs = true
  | [], [], [], _, _ => rfl
  | a :: as, b :: bs, c :: cs, hab, hbc => by
      simp only [beqItems, Bool.and_eq_true] at *
      exact ⟨beq_trans hab.1 hbc.1, beqItems_trans hab.2 hbc.2⟩

theorem beqEntries_trans : ∀ {as bs cs : List (String × Json)}, beqEntries as bs = true →
    beqEntries bs cs = true → beqEntries as cs = true
  | [], [], [], _, _ => rfl
  | (k, a) :: as, (l, b) :: bs, (m, c) :: cs, hab, hbc => by
      simp only [beqEntries, Bool.and_eq_true, beq_iff_eq] at *
      exact ⟨⟨hab.1.1.trans hbc.1.1, beq_trans hab.1.2 hbc.1.2⟩, beqEntries_trans hab.2 hbc.2⟩

end

instance : PartialEquivBEq Json where
  symm := beq_symm
  trans := beq_trans

end Json

end RuleTidy
