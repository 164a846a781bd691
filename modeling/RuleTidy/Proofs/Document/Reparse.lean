import RuleTidy.Proofs.Document.Run
import RuleTidy.Proofs.Yaml.Scalar.Written
import RuleTidy.Yaml.Node.Json

/-! Whether the text of a document still holds its configuration after an edit. It need not: both
edits guess at the text around the place they change. -/

namespace RuleTidy.Document

open Source Text Yaml

/-- The rendered text of a document is read as the value of its configuration. -/
def ReadsBack (d : Document) : Prop :=
  ∃ again, (Document.parse .empty d.render d.file).1 = .ok again ∧
    again.root.toJson = d.root.toJson

def readings (d : Document) : Option String × String :=
  ((Document.parse .empty d.render d.file).1.toOption.map (·.root.toJson.render),
    d.root.toJson.render)

theorem fst_readings {d : Document} (h : d.ReadsBack) : d.readings.1 = some d.readings.2 := by
  obtain ⟨again, hagain, hroot⟩ := h
  simp [readings, hagain, Except.toOption, hroot]

/-- An item that is a sequence on lines of its own is removed without its dash. -/
theorem not_readsBack_removeItem :
    ¬∀ (text : String) (d after : Document) (path : Path) (index : Nat) (removed : Node),
      (Document.parse .empty text none).1 = .ok d →
        d.removeItem path index = .ok (removed, after) → after.ReadsBack := by
  intro h
  have hrun : ((Document.parse .empty "-\n  - a\n  - b\n- c\n" none).1.toOption.bind fun d =>
      (d.removeItem [] 0).toOption.map fun removal => removal.2.readings) =
        some (some "[null,\"c\"]", "[\"c\"]") := by decide +kernel
  cases hparse : (Document.parse .empty "-\n  - a\n  - b\n- c\n" none).1 with
  | error e => simp [hparse, Except.toOption] at hrun
  | ok d =>
      cases hremove : d.removeItem [] 0 with
      | error e => simp [hparse, hremove, Except.toOption] at hrun
      | ok removal =>
          have hreads := fst_readings (h _ d removal.2 [] 0 removal.1 hparse hremove)
          simp only [hparse, hremove, Except.toOption, Option.bind_some, Option.map_some,
            Option.some.injEq] at hrun
          rw [hrun] at hreads
          exact absurd hreads (by decide)

theorem render_replaceScalar {registry registry' : Registry} {text : String} {file : Option String}
    {d after : Document} {path : Path} {value : String}
    (hparse : Document.parse registry text file = (.ok d, registry'))
    (hreplace : d.replaceScalar path value = .ok after) :
    ∃ info old style start stop margin blanks, d.root.at? path = some (.scalar info old) ∧
      info.layout = .scalar style ∧
      scalarStart? text.toList style (info.span.start.offset text.toList) = some start ∧
      (stop = max (info.span.stop.offset text.toList) (info.span.start.offset text.toList) ∧
        margin = blockIndent text.toList (slice text.toList start stop) info.span.start) ∧
      blanks.all isBlank = true ∧ after.root.at? path = some (.scalar info (.string value)) ∧
      after.render.toList = text.toList.take start ++
        (Written.render style value.toList margin ++ (blanks ++ text.toList.drop stop)) := by
  obtain ⟨htext, hedits⟩ := parse_eq_ok hparse
  obtain ⟨info, old, style, start, edits, root, hfound, hlayout, -, hstart, hrecord, hroot, rfl⟩ :=
    replaceScalar_eq_ok.1 hreplace
  rw [htext] at hstart hrecord
  let stop := max (info.span.stop.offset text.toList) (info.span.start.offset text.toList)
  let current := slice text.toList start stop
  let edit := rewriting text.toList style info.span value.toList start
  obtain ⟨blanks, hcurrent, hblanks⟩ := trimEnd_append_blanks current
  have hdrop : current.drop (trimEnd current).length = blanks := by
    have hleft : (trimEnd current ++ blanks).drop (trimEnd current).length = blanks :=
      List.drop_left
    rwa [← hcurrent] at hleft
  have hrender : TextEdit.applyAll text.toList edits = edit.apply text.toList := by
    rw [hedits, TextEdit.record?] at hrecord
    obtain rfl : [edit] = edits := by simpa using hrecord
    rfl
  have hfits : ¬edit.stop > text.toList.length := Nat.not_lt.2 (rewriting_fitsIn hstart).2
  -- blanks at the end of the old scalar are written again
  have hreplacement : edit.replacement = Written.render style value.toList
      (blockIndent text.toList current info.span.start) ++ blanks := by
    rw [← hdrop]
    rfl
  refine ⟨info, old, style, start, stop, blockIndent text.toList current info.span.start, blanks,
    hfound, hlayout, hstart, ⟨rfl, rfl⟩, hblanks, ?_, ?_⟩
  · rw [Node.at?_update? hroot, hfound, ← hlayout]
    rfl
  · have htext' : ({ d with root, edits } : Document).text = text.toList := htext
    rw [render, String.toList_ofList, htext', hrender, TextEdit.apply, if_neg hfits, hreplacement]
    simp only [edit, rewriting, stop, List.append_assoc]

/-- The string that replaces a scalar stands in its place, and unless it is written as a block, it
is read back wherever a scalar may end behind it: in quotes always, and without them exactly if
nothing cuts it. -/
theorem readsAs_replaceScalar {registry registry' : Registry} {text : String}
    {file : Option String} {d after : Document} {path : Path} {value : String}
    (hparse : Document.parse registry text file = (.ok d, registry'))
    (hreplace : d.replaceScalar path value = .ok after) :
    ∃ info old style blanks, d.root.at? path = some (.scalar info old) ∧
      info.layout = .scalar style ∧ after.root.at? path = some (.scalar info (.string value)) ∧
      blanks.all isBlank = true ∧
      (style ≠ .literal ∧ style ≠ .folded →
        let start := info.span.start.offset text.toList
        let written := Written.render style value.toList []
        let behind := blanks ++ text.toList.drop (max (info.span.stop.offset text.toList) start)
        after.render.toList = text.toList.take start ++ (written ++ behind) ∧
        ∀ flow indent (c : Cursor), c.rest = written ++ behind → ScalarEnds flow indent behind →
          indent ≤ c.column → ReadsAs style value.toList behind flow indent c) := by
  obtain ⟨info, old, style, start, stop, margin, blanks, hfound, hlayout, hstart, ⟨hstop, -⟩,
    hblanks, hroot, hrender⟩ := render_replaceScalar hparse hreplace
  refine ⟨info, old, style, blanks, hfound, hlayout, hroot, hblanks, fun hstyle => ?_⟩
  have hcontent : start = info.span.start.offset text.toList :=
    (Option.some.inj ((scalarStart?_inline hstyle _ _).symm.trans hstart)).symm
  rw [Written.render_inline hstyle margin, hstop, hcontent] at hrender
  exact ⟨hrender, fun flow indent c hrest hends hcolumn =>
    readsAs_render hstyle hrest hends hcolumn⟩

/-- A string without a comma in brackets. -/
theorem readsAs_replaceScalar_words :
    ∃ d registry' after, Document.parse .empty "[a]\n" none = (.ok d, registry') ∧
      d.replaceScalar [.index 0] "x y" = .ok after ∧ after.render = "[x y]\n" ∧
      (∃ info, after.root.at? [.index 0] = some (.scalar info (.string "x y"))) ∧
      ∀ c : Cursor, c.rest = "x y]\n".toList → ∃ token next,
        Plain.scan true 0 c = .ok (token, next) ∧ token.kind = .scalar .plain "x y" := by
  have hrun : ((Document.parse .empty "[a]\n" none).1.toOption.bind fun d =>
      (d.replaceScalar [.index 0] "x y").toOption.map fun after =>
        ((d.root.at? [.index 0]).map fun node =>
          (node.layout, node.span.start.offset "[a]\n".toList), after.render)) =
        some (some (.scalar .plain, 1), "[x y]\n") := by decide +kernel
  obtain ⟨d, registry', hparse, hrun⟩ := exists_parse_of_bind hrun
  cases hreplace : d.replaceScalar [.index 0] "x y" with
  | error e => simp [hreplace, Except.toOption] at hrun
  | ok after =>
      obtain ⟨info, old, style, blanks, hfound, hlayout, hroot, -, hback⟩ :=
        readsAs_replaceScalar hparse hreplace
      simp only [hreplace, hfound, Except.toOption, Option.map_some, Option.some.injEq,
        Prod.mk.injEq] at hrun
      obtain ⟨⟨hplain, hstart⟩, hrender⟩ := hrun
      obtain rfl : style = .plain := Layout.scalar.inj (hlayout.symm.trans hplain)
      obtain ⟨htext, hreads⟩ := hback (by decide)
      have hbehind : blanks ++ "[a]\n".toList.drop (max (info.span.stop.offset "[a]\n".toList)
          (info.span.start.offset "[a]\n".toList)) = "]\n".toList := by
        have hstart' : info.span.start.offset "[a]\n".toList = 1 := hstart
        have hwritten : Written.render .plain "x y".toList [] = "x y".toList := by decide +kernel
        rw [hrender, hwritten, hstart'] at htext
        rw [hstart']
        have hsplit : "[x y".toList ++ "]\n".toList = "[x y".toList ++ (blanks ++
            "[a]\n".toList.drop (max (info.span.stop.offset "[a]\n".toList) 1)) := htext
        exact (List.append_cancel_left hsplit).symm
      rw [hbehind] at hreads
      refine ⟨d, registry', after, hparse, hreplace, hrender, ⟨info, hroot⟩, fun c hrest => ?_⟩
      have hends : ScalarEnds true 0 ([] ++ ']' :: ['\n']) :=
        .indicator rfl (List.forall_mem_nil _) (.inr (.inl rfl))
      have hsafe : Written.isPlainSafe "x y".toList = true := by decide +kernel
      refine ((readsAs_plain hsafe).1 (hreads true 0 c hrest hends (by omega))).2 ?_
      refine ⟨by simp [Cursor.atDocumentMarker, Cursor.atMarker, hrest],
        fun _ => by simp [isFlow], ?_⟩
      rintro ⟨-, hdash, -⟩
      exact absurd hdash (by decide +kernel)

/-- A string with a comma is two items in brackets, where it is written without quotes. -/
theorem not_readsBack_replaceScalar :
    ¬∀ (text : String) (d after : Document) (path : Path) (value : String),
      (Document.parse .empty text none).1 = .ok d →
        d.replaceScalar path value = .ok after → after.ReadsBack := by
  intro h
  have hrun : ((Document.parse .empty "[a]\n" none).1.toOption.bind fun d =>
      (d.replaceScalar [.index 0] "x, y").toOption.map readings) =
        some (some "[\"x\",\"y\"]", "[\"x, y\"]") := by decide +kernel
  cases hparse : (Document.parse .empty "[a]\n" none).1 with
  | error e => simp [hparse, Except.toOption] at hrun
  | ok d =>
      cases hreplace : d.replaceScalar [.index 0] "x, y" with
      | error e => simp [hparse, hreplace, Except.toOption] at hrun
      | ok after =>
          have hreads := fst_readings (h _ d after [.index 0] "x, y" hparse hreplace)
          simp only [hparse, hreplace, Except.toOption, Option.bind_some, Option.map_some,
            Option.some.injEq] at hrun
          rw [hrun] at hreads
          exact absurd hreads (by decide)

end RuleTidy.Document
