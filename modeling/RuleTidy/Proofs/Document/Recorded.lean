import Mathlib.Tactic.Tauto
import RuleTidy.Proofs.Document.Splice

/-! Recorded edits. Recording keeps them inside the text and apart from each other, and applied from
the last to the first they are a splice of the text, of which no edit is left out. -/

namespace RuleTidy.Document.TextEdit

open Text

def FitsIn (text : List Char) (e : TextEdit) : Prop := e.start ≤ e.stop ∧ e.stop ≤ text.length

/-- Two edits, the second recorded after the first, have no character in common, and where they
start at one offset the second only inserts. -/
def Apart (a b : TextEdit) : Prop :=
  (a.stop ≤ b.start ∨ b.stop ≤ a.start) ∧ (a.start = b.start → a.start < a.stop ∧ b.start = b.stop)

structure Recorded (text : List Char) (edits : List TextEdit) : Prop where
  fits : ∀ e ∈ edits, e.FitsIn text
  apart : edits.Pairwise Apart

theorem Recorded.nil (text : List Char) : Recorded text [] := ⟨by simp, .nil⟩

theorem apart_of_not_covers {a edit : TextEdit} (hedit : edit.start ≤ edit.stop)
    (ha : a.start ≤ a.stop) (hoverlap : edit.overlaps a = true → edit.covers a = true)
    (hcover : edit.covers a = false) : Apart a edit := by
  have hnot : edit.overlaps a = false := by
    cases h : edit.overlaps a with
    | false => rfl
    | true => rw [hoverlap h] at hcover; contradiction
  simp only [overlaps, covers, Bool.and_eq_false_iff, decide_eq_false_iff_not] at hnot hcover
  unfold Apart
  omega

theorem Recorded.record? {text : List Char} {edits after : List TextEdit} {edit : TextEdit}
    (h : Recorded text edits) (hfit : edit.FitsIn text) (hrec : edit.record? edits = some after) :
    Recorded text after := by
  unfold TextEdit.record? at hrec
  split at hrec
  · contradiction
  · rename_i hconflict
    obtain rfl := Option.some.inj hrec
    have hoverlap : ∀ a ∈ edits, edit.overlaps a = true → edit.covers a = true := by
      simpa using hconflict
    refine ⟨fun e he => ?_, ?_⟩
    · rcases List.mem_append.1 he with hkept | hnew
      · exact h.fits e (List.mem_filter.1 hkept).1
      · rw [List.mem_singleton.1 hnew]
        exact hfit
    · refine List.pairwise_append.2 ⟨h.apart.filter _, List.pairwise_singleton _ _, ?_⟩
      intro a ha b hb
      obtain ⟨hmem, hcover⟩ := List.mem_filter.1 ha
      rw [List.mem_singleton.1 hb]
      exact apart_of_not_covers hfit.1 (h.fits a hmem).1 (hoverlap a hmem) (by simpa using hcover)

/-! ### The order in which edits are applied -/

theorem mem_insertLastFirst {edit a : TextEdit} {sorted : List TextEdit} :
    a ∈ insertLastFirst edit sorted ↔ a = edit ∨ a ∈ sorted := by
  induction sorted with
  | nil => simp [insertLastFirst]
  | cons other rest ih =>
      unfold insertLastFirst
      split <;> simp [ih, or_left_comm]

theorem insertLastFirst_perm (edit : TextEdit) (sorted : List TextEdit) :
    (insertLastFirst edit sorted).Perm (edit :: sorted) := by
  induction sorted with
  | nil => exact .refl _
  | cons other rest ih =>
      unfold insertLastFirst
      split
      · exact (ih.cons other).trans (.swap edit other rest)
      · exact .refl _

private theorem foldl_insertLastFirst_perm (edits sorted : List TextEdit) :
    (edits.foldl (fun sorted edit => insertLastFirst edit sorted) sorted).Perm
      (sorted ++ edits) := by
  induction edits generalizing sorted with
  | nil => simp
  | cons e rest ih =>
      refine (ih _).trans (((insertLastFirst_perm e sorted).append_right rest).trans ?_)
      exact List.perm_middle.symm

theorem lastFirst_perm (edits : List TextEdit) : (lastFirst edits).Perm edits :=
  foldl_insertLastFirst_perm edits []

/-- The first of two edits is applied before the second and lies behind it. -/
def Behind (a b : TextEdit) : Prop := b.stop ≤ a.start

theorem insertLastFirst_behind {edit : TextEdit} {sorted : List TextEdit}
    (hsorted : sorted.Pairwise Behind) (hedit : edit.start ≤ edit.stop)
    (hfits : ∀ a ∈ sorted, a.start ≤ a.stop) (hapart : ∀ a ∈ sorted, Apart a edit) :
    (insertLastFirst edit sorted).Pairwise Behind := by
  induction sorted with
  | nil => exact List.pairwise_singleton _ _
  | cons other rest ih =>
      obtain ⟨hother, hrest⟩ := List.pairwise_cons.1 hsorted
      obtain ⟨hfit, hfits⟩ := List.forall_mem_cons.1 hfits
      obtain ⟨hap, haparts⟩ := List.forall_mem_cons.1 hapart
      unfold insertLastFirst
      split
      · refine List.pairwise_cons.2 ⟨fun a ha => ?_, ih hrest hfits haparts⟩
        rcases mem_insertLastFirst.1 ha with rfl | ha
        · unfold Apart at hap
          unfold Behind
          omega
        · exact hother a ha
      · refine List.pairwise_cons.2 ⟨fun a ha => ?_, hsorted⟩
        unfold Apart at hap
        unfold Behind
        rcases List.mem_cons.1 ha with rfl | ha
        · omega
        · have hle := hother a ha
          unfold Behind at hle
          omega

private theorem foldl_insertLastFirst_behind {text : List Char} {edits sorted : List TextEdit}
    (hsorted : sorted.Pairwise Behind) (hfits : ∀ e ∈ sorted ++ edits, e.FitsIn text)
    (hapart : edits.Pairwise Apart) (hcross : ∀ a ∈ sorted, ∀ b ∈ edits, Apart a b) :
    (edits.foldl (fun sorted edit => insertLastFirst edit sorted) sorted).Pairwise Behind := by
  induction edits generalizing sorted with
  | nil => exact hsorted
  | cons e rest ih =>
      obtain ⟨he, hrest⟩ := List.pairwise_cons.1 hapart
      have hmem : ∀ a ∈ insertLastFirst e sorted ++ rest, a ∈ sorted ++ e :: rest := by
        intro a ha
        simp only [List.mem_append, mem_insertLastFirst, List.mem_cons] at ha ⊢
        tauto
      refine ih ?_ (fun a ha => hfits a (hmem a ha)) hrest fun a ha b hb => ?_
      · exact insertLastFirst_behind hsorted (hfits e (by simp)).1
          (fun a ha => (hfits a (by simp [ha])).1) fun a ha => hcross a ha e (by simp)
      · rcases mem_insertLastFirst.1 ha with rfl | ha
        · exact he b hb
        · exact hcross a ha b (by simp [hb])

theorem Recorded.lastFirst_behind {text : List Char} {edits : List TextEdit}
    (h : Recorded text edits) : (lastFirst edits).Pairwise Behind :=
  foldl_insertLastFirst_behind .nil (by simpa using h.fits) h.apart (by simp)

theorem Recorded.lastFirst_fits {text : List Char} {edits : List TextEdit}
    (h : Recorded text edits) : ∀ e ∈ lastFirst edits, e.FitsIn text :=
  fun e he => h.fits e ((lastFirst_perm edits).mem_iff.1 he)

/-- The order of the text. An edit that only inserts comes before one that starts at its offset. -/
def precedes (a b : TextEdit) : Bool :=
  a.start < b.start || (a.start = b.start && a.stop ≤ b.stop)

def inOrder (edits : List TextEdit) : List TextEdit := edits.mergeSort precedes

theorem Recorded.eq_of_range_eq {text : List Char} {edits : List TextEdit}
    (h : Recorded text edits) {a b : TextEdit} (ha : a ∈ edits) (hb : b ∈ edits)
    (hstart : a.start = b.start) (hstop : a.stop = b.stop) : a = b := by
  have hdiffer : ∀ x y, Apart x y → x.start = y.start → x.stop ≠ y.stop := by
    intro x y hxy hx
    obtain ⟨hlt, heq⟩ := hxy.2 hx
    omega
  have hall : ∀ ⦃x⦄, x ∈ edits → ∀ ⦃y⦄, y ∈ edits →
      x.start = y.start → x.stop = y.stop → x = y := by
    apply List.Pairwise.forall_of_forall_of_flip (R := fun x y : TextEdit =>
      x.start = y.start → x.stop = y.stop → x = y)
    · intro x _ _ _
      rfl
    · exact h.apart.imp fun hxy hx hy => absurd hy (hdiffer _ _ hxy hx)
    · exact h.apart.imp fun hxy hx hy => absurd hy.symm (hdiffer _ _ hxy hx.symm)
  exact hall ha hb hstart hstop

theorem Recorded.inOrder_eq {text : List Char} {edits : List TextEdit} (h : Recorded text edits) :
    inOrder edits = (lastFirst edits).reverse := by
  have hperm : (lastFirst edits).reverse.Perm edits :=
    (List.reverse_perm _).trans (lastFirst_perm edits)
  apply @List.Perm.eq_of_pairwise _ fun a b => precedes a b = true
  · intro a b ha hb hab hba
    simp only [precedes, Bool.or_eq_true, Bool.and_eq_true, decide_eq_true_eq] at hab hba
    exact h.eq_of_range_eq (List.mem_mergeSort.1 ha) (hperm.mem_iff.1 hb) (by omega) (by omega)
  · apply List.pairwise_mergeSort
    · intro a b c hab hbc
      simp only [precedes, Bool.or_eq_true, Bool.and_eq_true, decide_eq_true_eq] at hab hbc ⊢
      omega
    · intro a b
      simp only [precedes, Bool.or_eq_true, Bool.and_eq_true, decide_eq_true_eq]
      omega
  · refine List.pairwise_reverse.2 (h.lastFirst_behind.imp_of_mem fun {a b} ha hb hab => ?_)
    have hfa := (h.lastFirst_fits a ha).1
    have hfb := (h.lastFirst_fits b hb).1
    unfold Behind at hab
    simp only [precedes, Bool.or_eq_true, Bool.and_eq_true, decide_eq_true_eq]
    omega
  · exact (List.mergeSort_perm edits _).trans hperm.symm

/-! ### Applying the edits -/

def toReplacement (e : TextEdit) : Replacement Char := ⟨e.start, e.stop, e.replacement⟩

theorem foldl_apply_eq_splice {text : List Char} {edits : List TextEdit}
    (hfits : ∀ e ∈ edits, e.FitsIn text) (hbehind : edits.Pairwise Behind) :
    edits.foldl apply text = splice text 0 (edits.reverse.map toReplacement) := by
  induction edits generalizing text with
  | nil => simp [splice]
  | cons e rest ih =>
      obtain ⟨he, hrest⟩ := List.pairwise_cons.1 hbehind
      obtain ⟨hfit, hfits⟩ := List.forall_mem_cons.1 hfits
      have hstart : e.start ≤ text.length := Nat.le_trans hfit.1 hfit.2
      have hle : ∀ r ∈ rest.reverse.map toReplacement, r.start ≤ e.start ∧ r.stop ≤ e.start := by
        intro r hr
        obtain ⟨a, ha, rfl⟩ := List.mem_map.1 hr
        have hmem := List.mem_reverse.1 ha
        exact ⟨Nat.le_trans (hfits a hmem).1 (he a hmem), he a hmem⟩
      have hstep : apply text e = text.take e.start ++ (e.replacement ++ text.drop e.stop) := by
        rw [apply, if_neg (by have := hfit.2; omega), List.append_assoc]
      have hfits' : ∀ a ∈ rest, a.FitsIn (apply text e) := by
        intro a ha
        refine ⟨(hfits a ha).1, Nat.le_trans (he a ha) ?_⟩
        rw [hstep, List.length_append, List.length_take]
        omega
      have hlen : (text.take e.start).length = e.start := by
        rw [List.length_take]
        omega
      rw [List.foldl_cons, ih hfits' hrest, hstep, splice_append_of_le _ _ _ _ (Nat.zero_le _)
        (by rwa [hlen]), List.reverse_cons, List.map_append, List.map_cons, List.map_nil,
        splice_concat _ _ _ _ (Nat.zero_le _) hle, List.append_assoc]
      rfl

theorem take_foldl_apply (text : List Char) {edits : List TextEdit} {n : Nat}
    (h : ∀ e ∈ edits, n ≤ e.start ∧ e.start ≤ e.stop) :
    (edits.foldl apply text).take n = text.take n := by
  induction edits generalizing text with
  | nil => rfl
  | cons e rest ih =>
      obtain ⟨he, hrest⟩ := List.forall_mem_cons.1 h
      rw [List.foldl_cons, ih _ hrest, apply]
      split
      · rfl
      · rw [List.append_assoc, List.take_append_of_le_length (by rw [List.length_take]; omega),
          List.take_take, Nat.min_eq_left he.1]

theorem Recorded.applyAll_eq_splice {text : List Char} {edits : List TextEdit}
    (h : Recorded text edits) :
    applyAll text edits = splice text 0 ((inOrder edits).map toReplacement) := by
  rw [applyAll, foldl_apply_eq_splice h.lastFirst_fits h.lastFirst_behind, h.inOrder_eq]

theorem Recorded.take_applied {text : List Char} {edits done rest : List TextEdit} {e : TextEdit}
    (h : Recorded text edits) (hsplit : lastFirst edits = done ++ e :: rest) :
    (done.foldl apply text).take e.stop = text.take e.stop := by
  have hbehind := h.lastFirst_behind
  have hfits := h.lastFirst_fits
  rw [hsplit] at hbehind hfits
  apply take_foldl_apply
  intro a ha
  refine ⟨?_, (hfits a (List.mem_append_left _ ha)).1⟩
  exact (List.pairwise_append.1 hbehind).2.2 a ha e List.mem_cons_self

end RuleTidy.Document.TextEdit
