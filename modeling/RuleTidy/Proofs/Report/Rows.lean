import Mathlib.Data.List.Basic
import RuleTidy.Proofs.Source.LineIndex
import RuleTidy.Report.Snippet

/-! Sums of thirty-two bits that stop at the greatest number, and the numbered lines of a snippet. -/

namespace RuleTidy.Report

open Source Text

theorem toNat_subSaturating (a b : UInt32) : (subSaturating a b).toNat = a.toNat - b.toNat := by
  rw [subSaturating, UInt32.toNat_ofNat']
  have := a.toNat_lt
  omega

theorem toNat_addSaturating (a b : UInt32) :
    (addSaturating a b).toNat = min (a.toNat + b.toNat) 0xFFFFFFFF :=
  toNat_saturate _

theorem toNat_max (a b : UInt32) : (max a b).toNat = max a.toNat b.toNat := by
  change (if a ≤ b then b else a).toNat = _
  split
  · next h => exact (Nat.max_eq_right (UInt32.le_iff_toNat_le.1 h)).symm
  · next h => exact (Nat.max_eq_left (Nat.le_of_not_le (mt UInt32.le_iff_toNat_le.2 h))).symm

theorem toNat_min (a b : UInt32) : (min a b).toNat = min a.toNat b.toNat := by
  change (if a ≤ b then a else b).toNat = _
  split
  · next h => exact (Nat.min_eq_left (UInt32.le_iff_toNat_le.1 h)).symm
  · next h => exact (Nat.min_eq_right (Nat.le_of_not_le (mt UInt32.le_iff_toNat_le.2 h))).symm

section Rows

def snippetRows (lines : List (List Char)) (first last : Nat) : List (List Char × Nat) :=
  ((lines.take last).drop first).zipIdx (first + 1)

def printRows (width : Nat) (rows : List (List Char × Nat)) : List Char :=
  rows.flatMap fun row => numberedLine width row.1 row.2

variable {lines : List (List Char)} {first last index : Nat} {line : List Char}

theorem mem_snippetRows :
    (line, index + 1) ∈ snippetRows lines first last ↔
      first ≤ index ∧ index < last ∧ lines[index]? = some line := by
  rw [snippetRows, List.mk_mem_zipIdx_iff_le_and_getElem?_sub, Nat.add_le_add_iff_right,
    Nat.add_sub_add_right, List.getElem?_drop, List.getElem?_take]
  constructor
  · rintro ⟨hle, h⟩
    rw [Nat.add_sub_cancel' hle] at h
    split at h
    · next hlt => exact ⟨hle, hlt, h⟩
    · nomatch h
  · rintro ⟨hle, hlt, h⟩
    rw [Nat.add_sub_cancel' hle, if_pos hlt]
    exact ⟨hle, h⟩

end Rows

end RuleTidy.Report
