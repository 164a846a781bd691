/-! Sets of characters as ranges of code points. -/

namespace RuleTidy.Text.Unicode

abbrev Range := Nat × Nat

def covers (ranges : List Range) (code : Nat) : Bool :=
  ranges.any fun (first, last) => first ≤ code && code ≤ last

end RuleTidy.Text.Unicode
