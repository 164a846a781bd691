import RuleTidy.Document.Edit
import RuleTidy.Text.Utf8

/-! Splicing: all replacements of a text in one pass, in the order of the text. Applying recorded
edits from the last to the first comes to the same, for characters and for bytes. -/

namespace RuleTidy.Document

open Text

structure Replacement (α : Type) where
  start : Nat
  stop : Nat
  content : List α

/-- A text from an offset on, with replacements in the order of the text. -/
def splice {α : Type} (text : List α) (from_ : Nat) : List (Replacement α) → List α
  | [] => text.drop from_
  | r :: rest => (text.take r.start).drop from_ ++ r.content ++ splice text r.stop rest

theorem splice_append_of_le {α : Type} (text more : List α) (from_ : Nat)
    (rs : List (Replacement α)) (hfrom : from_ ≤ text.length)
    (hrs : ∀ r ∈ rs, r.start ≤ text.length ∧ r.stop ≤ text.length) :
    splice (text ++ more) from_ rs = splice text from_ rs ++ more := by
  induction rs generalizing from_ with
  | nil => simp [splice, List.drop_append_of_le_length hfrom]
  | cons r rest ih =>
      obtain ⟨hr, hrest⟩ := List.forall_mem_cons.1 hrs
      rw [splice, splice, ih r.stop hr.2 hrest, List.take_append_of_le_length hr.1]
      simp only [List.append_assoc]

theorem splice_concat {α : Type} (text : List α) (from_ : Nat) (rs : List (Replacement α))
    (r : Replacement α) (hfrom : from_ ≤ r.start)
    (hrs : ∀ s ∈ rs, s.start ≤ r.start ∧ s.stop ≤ r.start) :
    splice text from_ (rs ++ [r]) =
      splice (text.take r.start) from_ rs ++ r.content ++ text.drop r.stop := by
  induction rs generalizing from_ with
  | nil => simp [splice]
  | cons s rest ih =>
      obtain ⟨hs, hrest⟩ := List.forall_mem_cons.1 hrs
      rw [List.cons_append, splice, splice, ih s.stop hs.2 hrest, List.take_take,
        Nat.min_eq_left hs.1]
      simp only [List.append_assoc]

def encodedOffset {α β : Type} (encode : α → List β) (text : List α) (n : Nat) : Nat :=
  ((text.take n).flatMap encode).length

private theorem flatMap_take_append_drop {α β : Type} (encode : α → List β) (text : List α)
    (n : Nat) :
    text.flatMap encode = (text.take n).flatMap encode ++ (text.drop n).flatMap encode := by
  rw [← List.flatMap_append, List.take_append_drop]

theorem drop_encodedOffset {α β : Type} (encode : α → List β) (text : List α) (n : Nat) :
    (text.flatMap encode).drop (encodedOffset encode text n) = (text.drop n).flatMap encode := by
  rw [encodedOffset, flatMap_take_append_drop encode text n, List.drop_left]

theorem take_encodedOffset {α β : Type} (encode : α → List β) (text : List α) (n : Nat) :
    (text.flatMap encode).take (encodedOffset encode text n) = (text.take n).flatMap encode := by
  rw [encodedOffset, flatMap_take_append_drop encode text n, List.take_left]

def Replacement.encode {α β : Type} (encode : α → List β) (text : List α) (r : Replacement α) :
    Replacement β :=
  ⟨encodedOffset encode text r.start, encodedOffset encode text r.stop, r.content.flatMap encode⟩

theorem flatMap_splice {α β : Type} (encode : α → List β) (text : List α) (from_ : Nat)
    (rs : List (Replacement α)) (hrs : rs.Pairwise fun r s => r.stop ≤ s.start)
    (hfrom : ∀ r ∈ rs, from_ ≤ r.start) :
    (splice text from_ rs).flatMap encode =
      splice (text.flatMap encode) (encodedOffset encode text from_)
        (rs.map (Replacement.encode encode text)) := by
  induction rs generalizing from_ with
  | nil => simp only [splice, List.map_nil, drop_encodedOffset]
  | cons r rest ih =>
      obtain ⟨hr, hrest⟩ := List.pairwise_cons.1 hrs
      have hle : from_ ≤ r.start := hfrom r List.mem_cons_self
      have hoffset : encodedOffset encode text from_ =
          encodedOffset encode (text.take r.start) from_ := by
        rw [encodedOffset, encodedOffset, List.take_take, Nat.min_eq_left hle]
      have hkept : ((text.flatMap encode).take (encodedOffset encode text r.start)).drop
          (encodedOffset encode text from_) = ((text.take r.start).drop from_).flatMap encode := by
        rw [take_encodedOffset, hoffset, drop_encodedOffset]
      simp only [splice, List.map_cons, List.flatMap_append, ih r.stop hrest hr]
      rw [← hkept]
      rfl

end RuleTidy.Document
