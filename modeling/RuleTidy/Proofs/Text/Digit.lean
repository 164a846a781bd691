import Mathlib.Algebra.Group.Nat.Defs
import RuleTidy.Text.Digit

/-! Hexadecimal digits of a fixed width. They are read back in either case, as long as the number
has no more of them. -/

namespace RuleTidy.Text

theorem hexNumber?_append (digits : List Char) (c : Char) :
    hexNumber? (digits ++ [c]) = do return 16 * (← hexNumber? digits) + (← hexValue? c) := by
  simp [hexNumber?]

theorem length_hexDigits (width n : Nat) : (hexDigits width n).length = width := by
  induction width generalizing n with
  | zero => rfl
  | succ width ih => rw [hexDigits, List.length_append, ih, List.length_singleton]

theorem forall_mem_hexDigits {P : Char → Prop} (h : ∀ d < 16, P (Nat.digitChar d))
    (width n : Nat) : ∀ c ∈ hexDigits width n, P c := by
  induction width generalizing n with
  | zero => simp [hexDigits]
  | succ width ih =>
      intro c hc
      rw [hexDigits, List.mem_append, List.mem_singleton] at hc
      cases hc with
      | inl hc => exact ih (n / 16) c hc
      | inr hc =>
          rw [hc]
          exact h _ (Nat.mod_lt n (by decide))

theorem hexNumber?_hexDigits (write : Char → Char)
    (hwrite : ∀ d < 16, hexValue? (write (Nat.digitChar d)) = some d) {width n : Nat}
    (h : n < 16 ^ width) : hexNumber? ((hexDigits width n).map write) = some n := by
  induction width generalizing n with
  | zero =>
      obtain rfl : n = 0 := by simpa using h
      rfl
  | succ width ih =>
      have hfirst : n / 16 < 16 ^ width := by
        rw [Nat.pow_succ, Nat.mul_comm] at h
        exact Nat.div_lt_of_lt_mul h
      have hlast : hexValue? (write (Nat.digitChar (n % 16))) = some (n % 16) :=
        hwrite _ (Nat.mod_lt n (by decide))
      rw [hexDigits, List.map_append, List.map_singleton, hexNumber?_append, ih hfirst, hlast]
      simp [Nat.div_add_mod]

end RuleTidy.Text
