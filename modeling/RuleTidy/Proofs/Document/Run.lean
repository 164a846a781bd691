import RuleTidy.Proofs.Document.Extent
import RuleTidy.Proofs.Document.Recorded
import RuleTidy.Proofs.Document.Steps

/-! Runs of changes of one document. Whatever is asked of a document, and whether or not it is
granted, its edits stay apart from each other and rendering is a splice of the text it was parsed
from. -/

namespace RuleTidy.Document

open Source Text Yaml

inductive Change where
  | removeItem (path : Path) (index : Nat)
  | replaceScalar (path : Path) (value : String)
  deriving DecidableEq

def perform (d : Document) : Change → Except EditError Document
  | .removeItem path index => (·.2) <$> d.removeItem path index
  | .replaceScalar path value => d.replaceScalar path value

/-- A change that is refused leaves the document as it is. -/
def afterChange (d : Document) (change : Change) : Document :=
  match d.perform change with
  | .ok after => after
  | .error _ => d

def run (d : Document) (changes : List Change) : Document := changes.foldl afterChange d

theorem run_induction {P : Document → Prop} {d : Document} (hd : P d)
    (hstep : ∀ d change after, P d → d.perform change = .ok after → P after)
    (changes : List Change) : P (d.run changes) := by
  induction changes generalizing d with
  | nil => exact hd
  | cons change rest ih =>
      apply ih
      unfold afterChange
      cases h : d.perform change with
      | error e => exact hd
      | ok after => exact hstep d change after hd h

theorem HasLines.fitsIn {d : Document} {path : Path} {index start stop : Nat} {info : Info}
    {items : List Node} {item : Node} (h : d.HasLines path index start stop info items item) :
    TextEdit.FitsIn d.text ⟨start, stop, []⟩ := by
  refine ⟨Nat.le_of_lt h.lt, ?_⟩
  have hstop := h.stops
  unfold entryStop? at hstop
  split at hstop
  · exact entryStart?_le hstop
  · obtain rfl := Option.some.inj hstop
    dsimp only
    split
    · exact skipBlankLines_le (lineEndAfter_le _ _)
    · exact lineEndAfter_le _ _

theorem rewriting_fitsIn {text : List Char} {style : ScalarStyle} {span : Span} {value : List Char}
    {start : Nat} (h : scalarStart? text style (span.start.offset text) = some start) :
    (rewriting text style span value start).FitsIn text := by
  have hle : start ≤ span.start.offset text := by
    cases style <;> first
      | exact headerStart?_le h
      | exact Nat.le_of_eq (Option.some.inj h).symm
  have hstart := span.start.offset_le text
  have hstop := span.stop.offset_le text
  constructor <;> simp only [rewriting] <;> omega

theorem perform_records {d after : Document} {change : Change} (h : d.perform change = .ok after) :
    ∃ edit edits root, edit.FitsIn d.text ∧ TextEdit.record? d.edits edit = some edits ∧
      after = { d with root, edits } := by
  cases change with
  | removeItem path index =>
      obtain ⟨⟨removed, after⟩, hremove, rfl⟩ := map_eq_ok.1 h
      obtain ⟨start, stop, info, items, edits, root, hlines, hedits, -, rfl⟩ :=
        removeItem_eq_ok.1 hremove
      exact ⟨_, edits, root, hlines.fitsIn, hedits, rfl⟩
  | replaceScalar path value =>
      obtain ⟨info, old, style, start, edits, root, -, -, -, hstart, hedits, -, rfl⟩ :=
        replaceScalar_eq_ok.1 h
      exact ⟨_, edits, root, rewriting_fitsIn hstart, hedits, rfl⟩

theorem source_run (d : Document) (changes : List Change) : (d.run changes).source = d.source := by
  refine run_induction (P := fun after => after.source = d.source) rfl ?_ changes
  intro before change after hbefore h
  obtain ⟨edit, edits, root, -, -, rfl⟩ := perform_records h
  exact hbefore

theorem recorded_run {d : Document} (hd : TextEdit.Recorded d.text d.edits)
    (changes : List Change) : TextEdit.Recorded d.text (d.run changes).edits := by
  refine (run_induction (P := fun after => after.text = d.text ∧
    TextEdit.Recorded d.text after.edits) ⟨rfl, hd⟩ ?_ changes).2
  rintro before change after ⟨htext, hrecorded⟩ h
  obtain ⟨edit, edits, root, hfit, hedits, rfl⟩ := perform_records h
  rw [htext] at hfit
  exact ⟨htext, hrecorded.record? hfit hedits⟩

theorem fst_parse (registry registry' : Registry) (text : String) (file : Option String) :
    (Document.parse registry text file).1 = (Document.parse registry' text file).1 := rfl

theorem parse_eq_ok {registry registry' : Registry} {text : String} {file : Option String}
    {d : Document} (h : Document.parse registry text file = (.ok d, registry')) :
    d.text = text.toList ∧ d.edits = [] := by
  obtain ⟨hparse, -⟩ := Prod.mk.inj h
  obtain ⟨root, -, rfl⟩ := map_eq_ok.1 hparse
  exact ⟨rfl, rfl⟩

theorem exists_parse_eq_ok (registry : Registry) (text : String) (file : Option String)
    (h : (Document.parse registry text file).1.toOption.isSome = true) :
    ∃ d registry', Document.parse registry text file = (.ok d, registry') := by
  cases hparse : Document.parse registry text file with
  | mk result registry' =>
      cases result with
      | error e => simp [hparse, Except.toOption] at h
      | ok d => exact ⟨d, registry', rfl⟩

theorem exists_parse_of_bind {α : Type} {registry : Registry} {text : String} {file : Option String}
    {f : Document → Option α} {a : α}
    (h : (Document.parse registry text file).1.toOption.bind f = some a) :
    ∃ d registry', Document.parse registry text file = (.ok d, registry') ∧ f d = some a := by
  cases hparse : Document.parse registry text file with
  | mk result registry' =>
      cases result with
      | error e => simp [hparse, Except.toOption] at h
      | ok d => exact ⟨d, registry', rfl, by simpa [hparse, Except.toOption] using h⟩

end RuleTidy.Document
