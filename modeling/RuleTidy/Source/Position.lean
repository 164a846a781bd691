import RuleTidy.Text.Lines

/-! Positions of a text as line and column. Both count from zero, and a column counts characters.
Positions and offsets name the same places, up to clamping at the end of the text. -/

namespace RuleTidy.Source

/-- The greatest value of a position's fields stands for all that do not fit. -/
def saturate (n : Nat) : UInt32 := if n ≤ 0xFFFFFFFF then UInt32.ofNat n else 0xFFFFFFFF

theorem toNat_saturate (n : Nat) : (saturate n).toNat = min n 0xFFFFFFFF := by
  unfold saturate
  split
  · rw [UInt32.toNat_ofNat']
    omega
  · change 4294967295 = _
    omega

def addSaturating (a b : UInt32) : UInt32 := saturate (a.toNat + b.toNat)

def subSaturating (a b : UInt32) : UInt32 := UInt32.ofNat (a.toNat - b.toNat)

structure Position where
  line : UInt32
  column : UInt32
  deriving DecidableEq

namespace Position

def origin : Position := ⟨0, 0⟩

def compare (p q : Position) : Ordering :=
  (Ord.compare p.line q.line).then (Ord.compare p.column q.column)

def render (p : Position) : String := s!"{p.line.toNat}:{p.column.toNat}"

/-- The position of the character that has `n` characters before it. Past the end of the text the
column goes on counting. -/
def ofOffset (text : List Char) (n : Nat) : Position :=
  let before := text.take n
  ⟨saturate (before.count '\n'), saturate (Text.columnAfter before + (n - text.length))⟩

def lineOffset (text : List Char) (p : Position) : Nat :=
  (Text.lineStart? text p.line.toNat).getD text.length

/-- The number of characters before a position. A column past the end of its line runs on into
the next line, and nothing lies past the end of the text. -/
def offset (text : List Char) (p : Position) : Nat :=
  match Text.lineStart? text p.line.toNat with
  | none => text.length
  | some start => min (start + p.column.toNat) text.length

theorem offset_le (text : List Char) (p : Position) : p.offset text ≤ text.length := by
  unfold offset
  split
  · exact Nat.le_refl _
  · exact Nat.min_le_right _ _

end Position

end RuleTidy.Source
