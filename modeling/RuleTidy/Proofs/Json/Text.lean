import RuleTidy.Proofs.Text.Digit
import RuleTidy.Report.Diagnostic.Json

/-! JSON text holds no control character, whatever its strings are. Line feeds and carriage returns
are escaped like all the others. -/

namespace RuleTidy.Json

open Text

theorem intercalate_cons (piece : List Char) (pieces : List (List Char)) :
    [','].intercalate (piece :: pieces) = piece ++ pieces.flatMap (',' :: ·) := by
  induction pieces generalizing piece with
  | nil => simp [List.intercalate]
  | cons next pieces ih =>
      have hstep : [','].intercalate (piece :: next :: pieces) =
          piece ++ ',' :: [','].intercalate (next :: pieces) := by
        simp [List.intercalate]
      rw [hstep, ih, List.flatMap_cons, List.cons_append]

/-- No control character, and so no end of a line, stands in a text. -/
def Unbroken (text : List Char) : Prop := ∀ c ∈ text, 0x20 ≤ c.toNat

namespace Unbroken

variable {a b : List Char} {texts : List (List Char)}

theorem nil : Unbroken [] := by
  intro c hc
  nomatch hc

theorem append (ha : Unbroken a) (hb : Unbroken b) : Unbroken (a ++ b) := by
  intro c hc
  rcases List.mem_append.1 hc with h | h
  · exact ha c h
  · exact hb c h

theorem cons {c : Char} (hc : 0x20 ≤ c.toNat) (ha : Unbroken a) : Unbroken (c :: a) := by
  intro d hd
  rcases List.mem_cons.1 hd with rfl | h
  · exact hc
  · exact ha d h

theorem flatMap {α : Type} {values : List α} {write : α → List Char}
    (h : ∀ a ∈ values, Unbroken (write a)) : Unbroken (values.flatMap write) := by
  intro c hc
  obtain ⟨a, ha, hmem⟩ := List.mem_flatMap.1 hc
  exact h a ha c hmem

theorem intercalate (h : ∀ text ∈ texts, Unbroken text) : Unbroken ([','].intercalate texts) := by
  cases texts with
  | nil => exact nil
  | cons text texts =>
      rw [intercalate_cons]
      refine (h text List.mem_cons_self).append (flatMap fun other hother => ?_)
      exact cons (by decide) (h other (List.mem_cons_of_mem text hother))

theorem not_mem {c : Char} (h : Unbroken a) (hc : c.toNat < 0x20) : c ∉ a := by
  intro hmem
  have := h c hmem
  omega

end Unbroken

theorem unbroken_hexDigits (width n : Nat) : Unbroken (hexDigits width n) :=
  forall_mem_hexDigits (by decide) width n

theorem unbroken_escapeChar (c : Char) : Unbroken (escapeChar c) := by
  unfold escapeChar
  split
  any_goals exact .cons (by decide) (.cons (by decide) .nil)
  split
  · exact .cons (by decide) (.cons (by decide) (unbroken_hexDigits 4 _))
  · next hplain => exact .cons (Nat.le_of_not_lt hplain) .nil

theorem unbroken_quote (text : String) : Unbroken (quote text) :=
  .append (.cons (by decide) (.flatMap fun c _ => unbroken_escapeChar c))
    (.cons (by decide) .nil)

theorem unbroken_decimal (n : Nat) : Unbroken (decimal n) := by
  intro c hc
  have hdigit : c.isDigit := Nat.isDigit_of_mem_toDigits (by decide) (by decide) hc
  rw [Char.isDigit_iff_toNat] at hdigit
  exact Nat.le_trans (by decide) hdigit.1

theorem unbroken_writeOption {α : Type} {write : α → List Char} {o : Option α}
    (h : ∀ a ∈ o, Unbroken (write a)) : Unbroken (writeOption write o) := by
  cases o with
  | none =>
      change Unbroken ['n', 'u', 'l', 'l']
      simp [Unbroken]
  | some a => exact h a rfl

theorem unbroken_writeList {texts : List (List Char)} (h : ∀ text ∈ texts, Unbroken text) :
    Unbroken (writeList texts) :=
  .append (.cons (by decide) (.intercalate h)) (.cons (by decide) .nil)

theorem unbroken_writeObject {fields : List (String × List Char)}
    (h : ∀ field ∈ fields, Unbroken field.2) : Unbroken (writeObject fields) := by
  refine .append (.cons (by decide) (.intercalate fun text htext => ?_)) (.cons (by decide) .nil)
  obtain ⟨field, hfield, rfl⟩ := List.mem_map.1 htext
  exact (unbroken_quote field.1).append (.cons (by decide) (h field hfield))

end RuleTidy.Json
