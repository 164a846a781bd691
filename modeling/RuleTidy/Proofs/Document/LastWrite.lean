import RuleTidy.Proofs.Document.InPlace

/-! One scalar written several times. Where a scalar is written in the text does not depend on the
string, so that a later edit covers an earlier one, and all that the earlier one made void is void
for the later one too. The last string is left, as if it had been the only one. -/

namespace RuleTidy.Document

open Source Text Yaml

namespace TextEdit

theorem record?_eq_some {edits after : List TextEdit} {edit : TextEdit} :
    edit.record? edits = some after ↔
      (∀ other ∈ edits, edit.overlaps other = true → edit.covers other = true) ∧
        edits.filter (fun other => !edit.covers other) ++ [edit] = after := by
  unfold record?
  split
  · next hconflict =>
      refine ⟨nofun, fun h => ?_⟩
      simp only [List.any_eq_true, Bool.and_eq_true, Bool.not_eq_true'] at hconflict
      obtain ⟨other, hmem, hoverlaps, hcovers⟩ := hconflict
      rw [h.1 other hmem hoverlaps] at hcovers
      cases hcovers
  · next hnone =>
      simp only [List.any_eq_true, Bool.and_eq_true, Bool.not_eq_true', not_exists, not_and,
        Bool.not_eq_false] at hnone
      rw [Option.some_inj]
      exact ⟨fun h => ⟨hnone, h⟩, And.right⟩

def SameRange (a b : TextEdit) : Prop := a.start = b.start ∧ a.stop = b.stop

variable {edits once : List TextEdit} {first second : TextEdit}

theorem SameRange.covers_eq (h : SameRange first second) : second.covers = first.covers := by
  funext other
  rw [covers, covers, h.1, h.2]

theorem SameRange.overlaps_eq (h : SameRange first second) : second.overlaps = first.overlaps := by
  funext other
  rw [overlaps, overlaps, h.1, h.2]

theorem covers_self (edit : TextEdit) : edit.covers edit = true := by
  simp [covers]

theorem SameRange.record?_again (hrange : SameRange first second)
    (h : first.record? edits = some once) :
    ∃ twice, second.record? once = some twice ∧ second.record? edits = some twice := by
  obtain ⟨hclear, rfl⟩ := record?_eq_some.1 h
  refine ⟨edits.filter (fun other => !first.covers other) ++ [second], ?again, ?alone⟩
  case alone =>
    rw [record?_eq_some, hrange.covers_eq, hrange.overlaps_eq]
    exact ⟨hclear, rfl⟩
  case again =>
    rw [record?_eq_some, hrange.covers_eq, hrange.overlaps_eq]
    constructor
    · intro other hmem hoverlaps
      rcases List.mem_append.1 hmem with hkept | hnew
      · exact hclear other (List.mem_filter.1 hkept).1 hoverlaps
      · rw [List.mem_singleton.1 hnew]
        exact covers_self first
    · simp [List.filter_append, List.filter_filter, covers_self]

end TextEdit

theorem rewriting_sameRange (text : List Char) (style : ScalarStyle) (span : Span)
    (first second : List Char) (start : Nat) :
    TextEdit.SameRange (rewriting text style span first start)
      (rewriting text style span second start) :=
  ⟨rfl, rfl⟩

variable {d once : Document} {path : Path} {first : String}

theorem replaceScalar_again (h : d.replaceScalar path first = .ok once) (second : String) :
    ∃ twice, once.replaceScalar path second = .ok twice ∧
      d.replaceScalar path second = .ok twice := by
  obtain ⟨info, old, style, start, edits, root, hfound, hlayout, howned, hstart, hedits, hroot,
    rfl⟩ := replaceScalar_eq_ok.1 h
  obtain ⟨edits', hagain, halone⟩ :=
    (rewriting_sameRange d.text style info.span first.toList second.toList start).record?_again
      hedits
  let write (value : String) (_ : Node) : Node := .scalar ⟨info.span, .scalar style⟩ (.string value)
  have hsome : (d.root.update? path (write second)).isSome = true := by
    rw [Node.isSome_update?, hfound]
    rfl
  obtain ⟨root', hroot'⟩ := Option.isSome_iff_exists.1 hsome
  have hheld : root.at? path = some (write first (.scalar info old)) := by
    rw [Node.at?_update? hroot, hfound]
    rfl
  have hover : root.update? path (write second) = some root' :=
    (Node.update?_update? hroot).trans hroot'
  refine ⟨{ d with root := root', edits := edits' }, ?again, ?alone⟩
  case again =>
    exact replaceScalar_eq_ok.2 ⟨⟨info.span, .scalar style⟩, .string first, style, start, edits',
      root', hheld, rfl, howned, hstart, hagain, hover, rfl⟩
  case alone =>
    exact replaceScalar_eq_ok.2 ⟨info, old, style, start, edits', root', hfound, hlayout, howned,
      hstart, halone, hroot', rfl⟩

theorem exists_replaceScalar_run (h : d.replaceScalar path first = .ok once) (more : List String) :
    ∃ last, d.replaceScalar path last = .ok (once.run (more.map (.replaceScalar path))) := by
  induction more generalizing first once with
  | nil => exact ⟨first, h⟩
  | cons second more ih =>
      obtain ⟨twice, hagain, halone⟩ := replaceScalar_again h second
      have hstep : once.afterChange (.replaceScalar path second) = twice := by
        rw [afterChange, perform, hagain]
      rw [List.map_cons, run, List.foldl_cons, hstep]
      exact ih halone

/-- The last write wins, in whatever state a document is: once a string could be written in place of
a scalar, every further string can be written there, and however many were written in between, the
configuration with its spans and layouts, the recorded edits and so the text are those of a document
in which only the last one is. -/
theorem inPlace_replaceScalar_last
    (h : (Change.replaceScalar path first).inPlace.on d = (.ok (), once)) (between : List String)
    (last : String) :
    ∃ after,
      (Change.replaceScalar path last).inPlace.on
        (once.runInPlace (between.map (.replaceScalar path))) = (.ok (), after) ∧
      (Change.replaceScalar path last).inPlace.on d = (.ok (), after) := by
  have hfirst : d.replaceScalar path first = .ok once := on_inPlace_eq_ok.1 h
  obtain ⟨previous, hprevious⟩ := exists_replaceScalar_run hfirst between
  obtain ⟨after, hagain, halone⟩ := replaceScalar_again hprevious last
  rw [runInPlace_eq_run]
  exact ⟨after, on_inPlace_eq_ok.2 hagain, on_inPlace_eq_ok.2 halone⟩

/-- A block in an edited document, written three times. -/
theorem inPlace_replaceScalar_last_block :
    ∃ d registry' once after,
      Document.parse .empty "- a\n- |\n  b\n- c\n" none = (.ok d, registry') ∧
      let held := d.runInPlace [.removeItem [] 2, .replaceScalar [.index 0] "z"]
      (Change.replaceScalar [.index 1] "x").inPlace.on held = (.ok (), once) ∧
      (Change.replaceScalar [.index 1] "w\n").inPlace.on
        (once.runInPlace [.replaceScalar [.index 1] "y\n\n"]) = (.ok (), after) ∧
      (Change.replaceScalar [.index 1] "w\n").inPlace.on held = (.ok (), after) ∧
      after.render = "- z\n- |\n  w\n" := by
  have hrun : ((Document.parse .empty "- a\n- |\n  b\n- c\n" none).1.toOption.bind fun d =>
      let held := d.runInPlace [.removeItem [] 2, .replaceScalar [.index 0] "z"]
      (held.perform (.replaceScalar [.index 1] "x")).toOption.bind fun _ =>
        (held.perform (.replaceScalar [.index 1] "w\n")).toOption.map render) =
      some "- z\n- |\n  w\n" := by decide +kernel
  obtain ⟨d, registry', hparse, hrun⟩ := exists_parse_of_bind hrun
  obtain ⟨once, honce, hrun⟩ := Option.bind_eq_some_iff.1 hrun
  obtain ⟨alone, halone, hrender⟩ := Option.map_eq_some_iff.1 hrun
  rw [toOption_eq_some] at honce halone
  obtain ⟨after, hagain, hafter⟩ :=
    inPlace_replaceScalar_last (on_inPlace_eq_ok.2 honce) ["y\n\n"] "w\n"
  obtain rfl : alone = after := Except.ok.inj (halone.symm.trans (on_inPlace_eq_ok.1 hafter))
  exact ⟨d, registry', once, alone, hparse, on_inPlace_eq_ok.2 honce, hagain, hafter, hrender⟩

end RuleTidy.Document
