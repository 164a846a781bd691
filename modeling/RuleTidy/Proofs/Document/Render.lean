import RuleTidy.Proofs.Document.Run

/-! Rendering, in characters and in bytes. An edit is left out of a text only where its range goes
past the end or cuts a character in two, and that never happens to a recorded edit. -/

namespace RuleTidy.Document

open Source Text Yaml

def bytePos (text : List Char) (n : Nat) : String.Pos.Raw :=
  ⟨encodedOffset String.utf8EncodeChar text n⟩

theorem bytePos_eq_rawEndPos (text : List Char) (n : Nat) :
    bytePos text n = (String.ofList (text.take n)).rawEndPos := by
  apply String.Pos.Raw.ext
  rw [String.byteIdx_rawEndPos, ← String.size_toByteArray, String.toByteArray_ofList,
    List.utf8Encode, List.size_toByteArray]
  rfl

theorem bytePos_isValid {text current : List Char} {n : Nat} (h : current.take n = text.take n) :
    (bytePos text n).IsValid (String.ofList current) := by
  rw [String.Pos.Raw.isValid_iff_exists_append]
  refine ⟨String.ofList (current.take n), String.ofList (current.drop n), ?_, ?_⟩
  · rw [← String.ofList_append, List.take_append_drop]
  · rw [bytePos_eq_rawEndPos, h]

theorem encode_ofList (text : List Char) :
    Utf8.encode (String.ofList text) = text.flatMap String.utf8EncodeChar := by
  rw [Utf8.encode, String.toUTF8_eq_toByteArray, String.toByteArray_ofList, List.utf8Encode,
    List.data_toByteArray, List.toList_toArray]

namespace TextEdit

/-- Each edit, when its turn comes, has its range within the text as it is then, with both ends on
character boundaries. -/
def NoneSkipped (text : List Char) (edits : List TextEdit) : Prop :=
  ∀ done e rest, lastFirst edits = done ++ e :: rest →
    let current := done.foldl apply text
    e.stop ≤ current.length ∧ (bytePos text e.start).IsValid (String.ofList current) ∧
      (bytePos text e.stop).IsValid (String.ofList current)

theorem Recorded.noneSkipped {text : List Char} {edits : List TextEdit} (h : Recorded text edits) :
    NoneSkipped text edits := by
  intro done e rest hsplit current
  have hmem : e ∈ lastFirst edits := by simp [hsplit]
  obtain ⟨hle, hstop⟩ := h.lastFirst_fits e hmem
  have htake : current.take e.stop = text.take e.stop := h.take_applied hsplit
  have htake' : current.take e.start = text.take e.start := by
    rw [← Nat.min_eq_left hle, ← List.take_take, ← List.take_take, htake]
  refine ⟨?_, bytePos_isValid htake', bytePos_isValid htake⟩
  have hlen := congrArg List.length htake
  rw [List.length_take, List.length_take] at hlen
  omega

/-- Replacements of bytes that follow each other in a text and cut none of its characters. -/
structure OnBoundaries (text : String) (rs : List (Replacement UInt8)) : Prop where
  inOrder : rs.Pairwise fun r s => r.stop ≤ s.start
  fits : ∀ r ∈ rs, r.start ≤ r.stop ∧ r.stop ≤ text.utf8ByteSize
  boundary : ∀ r ∈ rs, (String.Pos.Raw.mk r.start).IsValid text ∧
    (String.Pos.Raw.mk r.stop).IsValid text

def toBytes (text : List Char) (e : TextEdit) : Replacement UInt8 :=
  e.toReplacement.encode String.utf8EncodeChar text

theorem Recorded.inOrder_apart {text : List Char} {edits : List TextEdit}
    (h : Recorded text edits) :
    (inOrder edits).Pairwise fun a b => a.stop ≤ b.start := by
  rw [h.inOrder_eq]
  exact List.pairwise_reverse.2 h.lastFirst_behind

theorem encodedOffset_mono (text : List Char) {m n : Nat} (h : m ≤ n) :
    encodedOffset String.utf8EncodeChar text m ≤ encodedOffset String.utf8EncodeChar text n := by
  obtain ⟨more, hmore⟩ : text.take m <+: text.take n := List.take_prefix_take_left h
  rw [encodedOffset, encodedOffset, ← hmore, List.flatMap_append, List.length_append]
  exact Nat.le_add_right _ _

theorem Recorded.onBoundaries {text : List Char} {edits : List TextEdit} (h : Recorded text edits) :
    OnBoundaries (String.ofList text) ((inOrder edits).map (toBytes text)) where
  inOrder := List.pairwise_map.2 (h.inOrder_apart.imp fun hab => encodedOffset_mono text hab)
  fits := by
    rintro r hr
    obtain ⟨e, he, rfl⟩ := List.mem_map.1 hr
    have hfits : e.FitsIn text := h.fits e (List.mem_mergeSort.1 he)
    refine ⟨encodedOffset_mono text hfits.1, ?_⟩
    have hend := encodedOffset_mono text hfits.2
    have hall := congrArg String.Pos.Raw.byteIdx (bytePos_eq_rawEndPos text text.length)
    rw [List.take_length, String.byteIdx_rawEndPos] at hall
    exact Nat.le_trans hend (Nat.le_of_eq hall)
  boundary := by
    rintro r hr
    obtain ⟨e, he, rfl⟩ := List.mem_map.1 hr
    exact ⟨bytePos_isValid rfl, bytePos_isValid rfl⟩

theorem Recorded.encode_applyAll {text : List Char} {edits : List TextEdit}
    (h : Recorded text edits) :
    Utf8.encode (String.ofList (applyAll text edits)) =
      splice (Utf8.encode (String.ofList text)) 0 ((inOrder edits).map (toBytes text)) := by
  rw [encode_ofList, encode_ofList, h.applyAll_eq_splice, flatMap_splice, List.map_map]
  · rfl
  · exact List.pairwise_map.2 h.inOrder_apart
  · exact fun r _ => Nat.zero_le _

end TextEdit

/-- Whatever is asked of a parsed document: its edits lie in the text and apart from each other, the
bytes that they replace are whole characters, none of the edits is skipped, and rendering is the
splice of the text, in characters and in bytes. -/
theorem render_run {registry registry' : Registry} {text : String} {file : Option String}
    {d : Document} (h : Document.parse registry text file = (.ok d, registry'))
    (changes : List Change) :
    let after := d.run changes
    let bytes := (TextEdit.inOrder after.edits).map (TextEdit.toBytes text.toList)
    TextEdit.Recorded text.toList after.edits ∧ TextEdit.OnBoundaries text bytes ∧
      TextEdit.NoneSkipped text.toList after.edits ∧
      after.render.toList =
        splice text.toList 0 ((TextEdit.inOrder after.edits).map TextEdit.toReplacement) ∧
      Utf8.encode after.render = splice (Utf8.encode text) 0 bytes := by
  intro after bytes
  obtain ⟨htext, hedits⟩ := parse_eq_ok h
  have hrecorded : TextEdit.Recorded text.toList after.edits := by
    rw [← htext]
    exact recorded_run (by rw [hedits]; exact .nil _) changes
  have hsource : after.text = text.toList := by
    rw [← htext, Document.text, source_run, Document.text]
  refine ⟨hrecorded, ?_, hrecorded.noneSkipped, ?_, ?_⟩
  · have hbytes := hrecorded.onBoundaries
    rwa [String.ofList_toList] at hbytes
  · rw [render, hsource, hrecorded.applyAll_eq_splice, String.toList_ofList]
  · rw [render, hsource, hrecorded.encode_applyAll, String.ofList_toList]

/-- Two granted changes and a refused one, in a text with a character of two bytes. -/
theorem render_run_three_items :
    ∃ d registry', Document.parse .empty "- é\n- b\n- c\n" none = (.ok d, registry') ∧
      let after := d.run
        [.replaceScalar [.index 1] "x", .removeItem [] 0, .removeItem [] 7]
      after.render = "- x\n- c\n" ∧ after.edits.length = 2 ∧
        Utf8.encode after.render = splice (Utf8.encode "- é\n- b\n- c\n") 0
          ((TextEdit.inOrder after.edits).map (TextEdit.toBytes "- é\n- b\n- c\n".toList)) := by
  obtain ⟨d, registry', h⟩ := exists_parse_eq_ok .empty "- é\n- b\n- c\n" none (by decide +kernel)
  have hrun : ((Document.parse .empty "- é\n- b\n- c\n" none).1.toOption.map fun d =>
      let after := d.run [.replaceScalar [.index 1] "x", .removeItem [] 0, .removeItem [] 7]
      (after.render, after.edits.length)) = some ("- x\n- c\n", 2) := by decide +kernel
  simp only [h, Except.toOption, Option.map_some, Option.some.injEq, Prod.mk.injEq] at hrun
  exact ⟨d, registry', h, hrun.1, hrun.2, (render_run h _).2.2.2.2⟩

end RuleTidy.Document
