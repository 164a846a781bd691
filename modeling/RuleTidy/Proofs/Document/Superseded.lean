import RuleTidy.Proofs.Document.Conflict
import RuleTidy.Proofs.Document.Reparse

/-! Removal of an item after a scalar in it was written anew. The lines that are taken away are the
same as before, since only a value has changed. What becomes of the string depends on where it was
written: inside of these lines nothing of it is left, across their border the removal is refused,
and outside of them the string stays in the text. -/

namespace RuleTidy.Document

open Source Text Yaml

section Extent

variable {text : List Char}

theorem itemsEnd_set {items : List Node} {n : Nat} {old new : Node} (h : items[n]? = some old)
    (hend : contentEnd text new = contentEnd text old) :
    itemsEnd text (items.set n new) = itemsEnd text items := by
  induction items generalizing n with
  | nil => cases h
  | cons item rest ih =>
      cases n with
      | zero =>
          obtain rfl := Option.some.inj h
          rw [List.set_cons_zero, itemsEnd, itemsEnd, hend]
      | succ n => rw [List.set_cons_succ, itemsEnd, itemsEnd, ih h]

theorem entriesEnd_setEntry {entries : List (Node × Node)} {name : String} {old new : Node}
    (h : Node.valueOf? name entries = some old)
    (hend : contentEnd text new = contentEnd text old) :
    entriesEnd text (Node.setEntry name new entries) = entriesEnd text entries := by
  induction entries with
  | nil => cases h
  | cons entry rest ih =>
      obtain ⟨key, value⟩ := entry
      rw [Node.valueOf?_cons] at h
      unfold Node.setEntry
      split at h
      · next hkey =>
          obtain rfl := Option.some.inj h
          rw [if_pos hkey, entriesEnd, entriesEnd, hend]
      · next hkey => rw [if_neg hkey, entriesEnd, entriesEnd, ih h]

theorem contentEnd_sequence {info : Info} {items : List Node} (h : items ≠ []) :
    contentEnd text (.sequence info items) = itemsEnd text items := by
  cases items with
  | nil => exact absurd rfl h
  | cons item rest => rw [contentEnd, itemsEnd]

theorem contentEnd_mapping {info : Info} {entries : List (Node × Node)} (h : entries ≠ []) :
    contentEnd text (.mapping info entries) = entriesEnd text entries := by
  cases entries with
  | nil => exact absurd rfl h
  | cons entry rest => rw [contentEnd, entriesEnd]

theorem setEntry_ne_nil {entries : List (Node × Node)} {name : String} {value : Node}
    (h : entries ≠ []) : Node.setEntry name value entries ≠ [] := by
  cases entries with
  | nil => exact absurd rfl h
  | cons entry rest =>
      unfold Node.setEntry
      split <;> exact List.cons_ne_nil _ _

/-- Two nodes are written at the same place, and their content ends at the same offset. -/
structure SameExtent (text : List Char) (old new : Node) : Prop where
  info : new.info = old.info
  contentEnd : contentEnd text new = contentEnd text old

theorem SameExtent.setChild {node old new : Node} {segment : Segment}
    (h : SameExtent text old new) (hchild : node.child? segment = some old) :
    SameExtent text node (node.setChild segment new) := by
  refine ⟨Node.info_setChild node new segment, ?_⟩
  cases segment with
  | index n =>
      obtain ⟨info, items, rfl, hitem⟩ := Node.child?_index_eq_some.1 hchild
      have hne : items ≠ [] := by
        rintro rfl
        cases hitem
      have hset : items.set n new ≠ [] := by simpa using hne
      have hend := itemsEnd_set hitem h.contentEnd
      rw [contentEnd_sequence hne, ← hend]
      exact contentEnd_sequence hset
  | key name =>
      obtain ⟨info, entries, rfl, hvalue⟩ := Node.child?_key_eq_some.1 hchild
      have hne : entries ≠ [] := by
        rintro rfl
        cases hvalue
      have hend := entriesEnd_setEntry hvalue h.contentEnd
      rw [contentEnd_mapping hne, ← hend]
      exact contentEnd_mapping (setEntry_ne_nil hne)

theorem SameExtent.update? {node after old : Node} {path : Path} {f : Node → Node}
    (hold : node.at? path = some old) (h : SameExtent text old (f old))
    (hafter : node.update? path f = some after) : SameExtent text node after := by
  induction path generalizing node after with
  | nil =>
      obtain rfl := Option.some.inj hold
      obtain rfl := Option.some.inj hafter
      exact h
  | cons segment rest ih =>
      rw [Node.at?_cons, Option.bind_eq_some_iff] at hold
      obtain ⟨child, hchild, hold⟩ := hold
      obtain ⟨child', new, hchild', hnew, rfl⟩ := Node.update?_cons_eq_some.1 hafter
      obtain rfl := Option.some.inj (hchild.symm.trans hchild')
      exact (ih hold hnew).setChild hchild

theorem entryStart?_of_sameExtent {old new : Node} (h : SameExtent text old new) :
    entryStart? text new = entryStart? text old := by
  unfold entryStart? writtenStart? Node.span Node.layout
  rw [h.info]

/-! What stands behind the content of a last item. -/

theorem contentEnd_le_itemsEnd {items : List Node} {item : Node} (h : item ∈ items) :
    contentEnd text item ≤ itemsEnd text items := by
  induction items with
  | nil => cases h
  | cons first rest ih =>
      rw [itemsEnd]
      rcases List.mem_cons.1 h with rfl | h
      · exact Nat.le_max_left _ _
      · exact Nat.le_trans (ih h) (Nat.le_max_right _ _)

theorem contentEnd_le_entriesEnd {entries : List (Node × Node)} {name : String} {value : Node}
    (h : Node.valueOf? name entries = some value) :
    contentEnd text value ≤ entriesEnd text entries := by
  induction entries with
  | nil => cases h
  | cons entry rest ih =>
      obtain ⟨key, first⟩ := entry
      rw [Node.valueOf?_cons] at h
      rw [entriesEnd]
      split at h
      · obtain rfl := Option.some.inj h
        omega
      · have hrest := ih h
        omega

theorem contentEnd_le_of_child? {node child : Node} {segment : Segment}
    (h : node.child? segment = some child) : contentEnd text child ≤ contentEnd text node := by
  cases segment with
  | index n =>
      obtain ⟨info, items, rfl, hitem⟩ := Node.child?_index_eq_some.1 h
      have hmem := List.mem_of_getElem? hitem
      rw [contentEnd_sequence (List.ne_nil_of_mem hmem)]
      exact contentEnd_le_itemsEnd hmem
  | key name =>
      obtain ⟨info, entries, rfl, hvalue⟩ := Node.child?_key_eq_some.1 h
      have hne : entries ≠ [] := by
        rintro rfl
        cases hvalue
      rw [contentEnd_mapping hne]
      exact contentEnd_le_entriesEnd hvalue

theorem trimmedEnd_le_contentEnd {node : Node} {path : Path} {info : Info} {value : Scalar}
    (h : node.at? path = some (.scalar info value)) :
    trimmedEnd text (.scalar info value) ≤ contentEnd text node := by
  induction path generalizing node with
  | nil =>
      obtain rfl := Option.some.inj h
      exact Nat.le_of_eq (by rw [contentEnd])
  | cons segment rest ih =>
      rw [Node.at?_cons, Option.bind_eq_some_iff] at h
      obtain ⟨child, hchild, h⟩ := h
      exact Nat.le_trans (ih h) (contentEnd_le_of_child? hchild)

theorem le_lineEndAfter (text : List Char) (offset : Nat) :
    offset ≤ lineEndAfter text offset ∨ lineEndAfter text offset = text.length := by
  unfold lineEndAfter
  dsimp only
  split
  · exact .inl (by omega)
  · exact .inr rfl

theorem le_entryStop {items : List Node} {item : Node} {index start stop : Nat}
    (hlast : items[index + 1]? = none)
    (h : entryStop? text items index start item = some stop) :
    contentEnd text item ≤ stop ∨ text.length ≤ stop := by
  unfold entryStop? at h
  rw [hlast] at h
  have hstop : entryEnd text item ≤ stop := by
    dsimp only at h
    split at h
    · obtain rfl := Option.some.inj h
      exact Nat.le_add_right _ _
    · exact Nat.le_of_eq (Option.some.inj h)
  rcases le_lineEndAfter text (contentEnd text item) with hend | hend
  · exact .inl (Nat.le_trans hend hstop)
  · exact .inr (hend ▸ hstop)

theorem all_isBlank_slice {node : Node} {from_ : Nat} (h : trimmedEnd text node ≤ from_) :
    (slice text from_ (max (node.span.stop.offset text) (node.span.start.offset text))).all
      isBlank = true := by
  unfold trimmedEnd at h
  dsimp only at h
  generalize node.span.start.offset text = start at h ⊢
  generalize max (node.span.stop.offset text) start = stop at h ⊢
  have hdrop : slice text from_ stop = (slice text start stop).drop (from_ - start) := by
    have hfrom : start + (from_ - start) = from_ := by omega
    rw [slice, slice, List.drop_drop, hfrom]
  obtain ⟨blanks, hslice, hblanks⟩ := trimEnd_append_blanks (slice text start stop)
  have hbehind : (slice text start stop).drop (from_ - start) =
      blanks.drop (from_ - start - (trimEnd (slice text start stop)).length) := by
    refine (congrArg (List.drop (from_ - start)) hslice).trans ?_
    rw [List.drop_append, List.drop_eq_nil_of_le (by omega), List.nil_append]
  rw [hdrop, hbehind]
  rw [List.all_eq_true] at hblanks ⊢
  exact fun c hc => hblanks c (List.mem_of_mem_drop hc)

end Extent

theorem HasLines.of_sameExtent {d : Document} {list : Path} {index start stop : Nat} {info : Info}
    {items : List Node} {item new root : Node} {edits : List TextEdit}
    (h : d.HasLines list index start stop info items item) (hsame : SameExtent d.text item new)
    (hroot : root.at? list = some (.sequence info (items.set index new))) :
    HasLines { d with root, edits } list index start stop info (items.set index new) new where
  found := hroot
  atIndex := List.getElem?_set_self (List.getElem?_eq_some_iff.1 h.atIndex).1
  block := h.block
  two_le := by simpa using h.two_le
  owned := by
    have hspan : new.span = item.span := congrArg Info.span hsame.info
    rw [hspan]
    exact h.owned
  starts := (entryStart?_of_sameExtent hsame).trans h.starts
  stops := by
    have hnext : (items.set index new)[index + 1]? = items[index + 1]? :=
      List.getElem?_set_ne (Nat.succ_ne_self index).symm
    have hend : entryEnd d.text new = entryEnd d.text item :=
      congrArg (lineEndAfter d.text) hsame.contentEnd
    have hstop : entryStop? d.text (items.set index new) index start new =
        entryStop? d.text items index start item := by
      unfold entryStop?
      rw [hnext, hend]
    exact hstop.trans h.stops
  lt := h.lt

section Fresh

variable {d replaced after : Document} {list rest : Path} {index : Nat} {value : String}
  {removed : Node}

def withString (value : String) (leaf : Node) : Node := .scalar leaf.info (.string value)

theorem at?_inItem {info : Info} {items : List Node} {path : Path}
    (hlist : d.root.at? list = some (.sequence info items)) :
    d.root.at? (list ++ .index index :: path) = items[index]?.bind (·.at? path) := by
  rw [Node.at?_append, hlist, Option.bind_some, Node.at?_cons]
  rfl

theorem at?_replaceScalar {info : Info} {items : List Node}
    (hlist : d.root.at? list = some (.sequence info items)) (hitem : items[index]? = some removed)
    (h : d.replaceScalar (list ++ .index index :: rest) value = .ok replaced) :
    ∃ new, removed.update? rest (withString value) = some new ∧
      SameExtent d.text removed new ∧
      d.root.update? list (fun _ => .sequence info (items.set index new)) = some replaced.root := by
  obtain ⟨leafInfo, old, hleaf, hroot⟩ := root_replaceScalar h
  have hinside : removed.at? rest = some (.scalar leafInfo old) := by
    rw [at?_inItem hlist, hitem] at hleaf
    exact hleaf
  have hupdate : removed.update? rest (withString value) =
      removed.update? rest fun _ => .scalar leafInfo (.string value) :=
    Node.update?_congr hinside rfl
  rw [Node.update?_append hlist, Node.update?_cons] at hroot
  have hchild : (Node.sequence info items).child? (.index index) = some removed := hitem
  rw [hchild, Option.bind_some, ← hupdate] at hroot
  cases hnew : removed.update? rest (withString value) with
  | none =>
      rw [hnew] at hroot
      cases hroot
  | some new =>
      rw [hnew] at hroot
      exact ⟨new, rfl, .update? hinside ⟨rfl, rfl⟩ hnew, hroot⟩

theorem withoutItem_set {info : Info} {items : List Node} (new : Node) :
    withoutItem index (.sequence info (items.set index new)) =
      withoutItem index (.sequence info items) := by
  rw [withoutItem, withoutItem, List.eraseIdx_set_eq]

theorem record?_single (written cut : TextEdit) :
    cut.record? [written] =
      if cut.covers written then some [cut]
      else if cut.overlaps written then none
      else some [written, cut] := by
  unfold TextEdit.record?
  cases hcovers : cut.covers written with
  | true => simp [hcovers]
  | false => cases hoverlaps : cut.overlaps written <;> simp [hcovers, hoverlaps]

theorem editFor_removeItem {start stop : Nat} {info : Info} {items : List Node}
    (h : d.HasLines list index start stop info items removed) :
    d.editFor (.removeItem list index) = .ok ⟨start, stop, []⟩ :=
  bind_eq_ok.2 ⟨(start, stop), removalRange_eq_ok.2 ⟨info, items, removed, h⟩, rfl⟩

theorem eq_of_perform (hfresh : d.edits = []) (change : Change)
    (h : d.perform change = .ok after) :
    ∃ edit, d.editFor change = .ok edit ∧
      after = { d with root := after.root, edits := [edit] } := by
  obtain ⟨edit, hedit, hrecord⟩ := editFor_of_perform h
  obtain ⟨_, edits, root, -, -, rfl⟩ := perform_records h
  have hedits : [edit] = edits := by simpa [hfresh, TextEdit.record?] using hrecord
  exact ⟨edit, hedit, by rw [hedits]⟩

/-- If a scalar was written beyond the lines of a last item, then only the blanks behind it are. -/
theorem blanks_behind_last {start stop : Nat} {info : Info} {items : List Node} {written : TextEdit}
    (hfresh : d.edits = []) (hlines : d.HasLines list index start stop info items removed)
    (hlast : items[index + 1]? = none)
    (h : d.replaceScalar (list ++ .index index :: rest) value = .ok replaced)
    (hwritten : replaced.edits = [written]) :
    (slice d.text stop written.stop).all isBlank = true := by
  obtain ⟨leafInfo, old, style, from_, edits, root, hleaf, -, -, -, hedits, -, rfl⟩ :=
    replaceScalar_eq_ok.1 h
  have hrecorded : edits = [written] := hwritten
  have hedit : rewriting d.text style leafInfo.span value.toList from_ = written := by
    simpa [hfresh, TextEdit.record?, hrecorded] using hedits
  rw [at?_inItem hlines.found, hlines.atIndex, Option.bind_some] at hleaf
  have hcontent : trimmedEnd d.text (.scalar leafInfo old) ≤ contentEnd d.text removed :=
    trimmedEnd_le_contentEnd hleaf
  rw [← hedit]
  rcases le_entryStop hlast hlines.stops with hstop | hstop
  · exact all_isBlank_slice (Nat.le_trans hcontent hstop)
  · have hempty : slice d.text stop
        (rewriting d.text style leafInfo.span value.toList from_).stop = [] :=
      List.drop_eq_nil_of_le (by rw [List.length_take]; omega)
    rw [hempty]
    rfl

/-- An item of a document that was just parsed is removed after a scalar in it was written anew.
If the string was written on the lines of the item, the document is the one without the item. If it
was written across their border, the removal is refused, and if it was written elsewhere, it stays
in the text. No more than blanks of it can stand behind the lines of a last item. -/
theorem removeItem_replaceScalar {registry registry' : Registry} {text : String}
    {file : Option String} (hparse : Document.parse registry text file = (.ok d, registry'))
    (hreplace : d.replaceScalar (list ++ .index index :: rest) value = .ok replaced)
    (hremove : d.removeItem list index = .ok (removed, after)) :
    ∃ written cut new,
      d.editFor (.replaceScalar (list ++ .index index :: rest) value) = .ok written ∧
      d.editFor (.removeItem list index) = .ok cut ∧
      removed.update? rest (withString value) = some new ∧
      replaced.removeItem list index =
        (if cut.covers written then .ok (new, after)
          else if cut.overlaps written then .error (.conflict list)
          else .ok (new, { after with edits := [written, cut] })) ∧
      (d.root.at? (list ++ [.index (index + 1)]) = none →
        (slice d.text cut.stop written.stop).all isBlank = true) := by
  obtain ⟨-, hfresh⟩ := parse_eq_ok hparse
  obtain ⟨written, hwritten, hreplaced⟩ := eq_of_perform hfresh (.replaceScalar _ value) hreplace
  obtain ⟨start, stop, info, items, edits, root, hlines, hedits, hroot, rfl⟩ :=
    removeItem_eq_ok.1 hremove
  obtain ⟨new, hnew, hsame, hlist⟩ := at?_replaceScalar hlines.found hlines.atIndex hreplace
  have hfound : replaced.root.at? list = some (.sequence info (items.set index new)) := by
    rw [Node.at?_update? hlist, hlines.found, Option.map_some]
  -- the written scalar leaves the item on the lines that it had
  have hlines' : HasLines { d with root := replaced.root, edits := [written] } list index start stop
      info (items.set index new) new := hlines.of_sameExtent hsame hfound
  have hgone : replaced.root.update? list (withoutItem index) = some root := by
    rw [Node.update?_update? hlist, ← hroot]
    exact Node.update?_congr hlines.found (withoutItem_set new)
  have hcut : d.editFor (.removeItem list index) = .ok ⟨start, stop, []⟩ :=
    editFor_removeItem hlines
  obtain rfl : [(⟨start, stop, []⟩ : TextEdit)] = edits := by
    simpa [hfresh, TextEdit.record?] using hedits
  refine ⟨written, ⟨start, stop, []⟩, new, hwritten, hcut, hnew, ?_, fun hlast => ?last⟩
  case last =>
    rw [at?_inItem hlines.found] at hlast
    have hnext : items[index + 1]? = none := by simpa [Node.at?] using hlast
    exact blanks_behind_last hfresh hlines hnext hreplace (congrArg edits hreplaced)
  rw [hreplaced]
  -- one edit is recorded, so it is covered, overlapped or left alone
  have hrecord := record?_single written ⟨start, stop, []⟩
  split
  · next hcovers =>
      rw [if_pos hcovers] at hrecord
      exact removeItem_eq_ok.2 ⟨start, stop, info, _, _, root, hlines', hrecord, hgone, rfl⟩
  · next hcovers =>
      rw [if_neg hcovers] at hrecord
      split
      · next hoverlaps =>
          rw [if_pos hoverlaps] at hrecord
          exact removeItem_eq_conflict.2 ⟨rfl, _, editFor_removeItem hlines', hrecord⟩
      · next hoverlaps =>
          rw [if_neg hoverlaps] at hrecord
          exact removeItem_eq_ok.2 ⟨start, stop, info, _, _, root, hlines', hrecord, hgone, rfl⟩

end Fresh

/-- A block at the end of the text. -/
theorem removeItem_replaceScalar_block :
    ∃ d registry' written cut replaced removed after new,
      Document.parse .empty "- c\n- p: a\n  q: |\n    b\n" none = (.ok d, registry') ∧
      d.editFor (.replaceScalar [.index 1, .key "q"] "x") = .ok written ∧
      d.editFor (.removeItem [] 1) = .ok cut ∧
      d.replaceScalar [.index 1, .key "q"] "x" = .ok replaced ∧
      d.removeItem [] 1 = .ok (removed, after) ∧ after.render = "- c\n" ∧
      replaced.removeItem [] 1 = .ok (new, after) ∧
      d.root.at? [.index 2] = none ∧ (slice d.text cut.stop written.stop).all isBlank = true := by
  have hrun : ((Document.parse .empty "- c\n- p: a\n  q: |\n    b\n" none).1.toOption.bind fun d =>
      (d.editFor (.replaceScalar [.index 1, .key "q"] "x")).toOption.bind fun written =>
        (d.editFor (.removeItem [] 1)).toOption.bind fun cut =>
          (d.replaceScalar [.index 1, .key "q"] "x").toOption.bind fun _ =>
            (d.removeItem [] 1).toOption.map fun removal =>
              (cut.covers written, removal.2.render, (d.root.at? [.index 2]).isNone)) =
      some (true, "- c\n", true) := by decide +kernel
  obtain ⟨d, registry', hparse, hrun⟩ := exists_parse_of_bind hrun
  obtain ⟨written, hwritten, hrun⟩ := Option.bind_eq_some_iff.1 hrun
  obtain ⟨cut, hcut, hrun⟩ := Option.bind_eq_some_iff.1 hrun
  obtain ⟨replaced, hreplace, hrun⟩ := Option.bind_eq_some_iff.1 hrun
  obtain ⟨⟨removed, after⟩, hremove, heq⟩ := Option.map_eq_some_iff.1 hrun
  obtain ⟨hcovers, heq⟩ := Prod.mk.inj heq
  obtain ⟨hrender, hlast⟩ := Prod.mk.inj heq
  rw [toOption_eq_some] at hwritten hcut hreplace hremove
  rw [Option.isNone_iff_eq_none] at hlast
  have hinside : d.replaceScalar ([] ++ .index 1 :: [.key "q"]) "x" = .ok replaced := hreplace
  obtain ⟨written', cut', new, hwritten', hcut', -, hresult, hblanks⟩ :=
    removeItem_replaceScalar hparse hinside hremove
  obtain rfl := Except.ok.inj (hwritten.symm.trans hwritten')
  obtain rfl := Except.ok.inj (hcut.symm.trans hcut')
  rw [if_pos hcovers] at hresult
  exact ⟨d, registry', written, cut, replaced, removed, after, new, hparse, hwritten, hcut,
    hreplace, hremove, hrender, hresult, hlast, hblanks hlast⟩

/-- A block in a list that is indented is written up to the dash of the next item. -/
theorem not_removeItem_replaceScalar :
    ¬∀ (text : String) (d replaced after : Document) (list rest : Path) (index : Nat)
      (value : String) (removed : Node), (Document.parse .empty text none).1 = .ok d →
      d.replaceScalar (list ++ .index index :: rest) value = .ok replaced →
      d.removeItem list index = .ok (removed, after) →
      ∃ new both, replaced.removeItem list index = .ok (new, both) ∧
        both.render = after.render ∧ (both.root == after.root) = true := by
  intro h
  have hrun : ((Document.parse .empty "k:\n  - |\n    a\n  - b\n" none).1.toOption.bind fun d =>
      (d.replaceScalar [.key "k", .index 0] "x").toOption.bind fun replaced =>
        (d.removeItem [.key "k"] 0).toOption.map fun _ =>
          (replaced.removeItem [.key "k"] 0).toOption.isSome) = some false := by decide +kernel
  obtain ⟨d, registry', hparse, hrun⟩ := exists_parse_of_bind hrun
  obtain ⟨replaced, hreplace, hrun⟩ := Option.bind_eq_some_iff.1 hrun
  obtain ⟨⟨removed, after⟩, hremove, hnone⟩ := Option.map_eq_some_iff.1 hrun
  rw [toOption_eq_some] at hreplace hremove
  have hparse' := congrArg (·.1) hparse
  obtain ⟨new, both, hboth, -, -⟩ :=
    h _ d replaced after [.key "k"] [] 0 "x" removed hparse' hreplace hremove
  rw [hboth] at hnone
  cases hnone

end RuleTidy.Document
