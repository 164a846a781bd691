import RuleTidy.Document.InPlace
import RuleTidy.Proofs.Document.Run
import RuleTidy.Proofs.Yaml.Slot

/-! Edits in place take effect as a whole or not at all. An edit that is refused has recorded
nothing by then, and after the edit of the text is recorded no step is refused. -/

namespace RuleTidy.Document

open Source Text Yaml

namespace InPlace

variable {α β : Type} {d after : Document}

theorem on_bind_of_ok {steps : InPlace α} {a : α} (h : steps.on d = (.ok a, after))
    (next : α → InPlace β) : (steps >>= next).on d = (next a).on after := by
  have hrun : (steps >>= next).on d = ExceptT.bindCont next (steps.on d).1 (steps.on d).2 := rfl
  rw [hrun, h]
  rfl

theorem on_bind_of_error {steps : InPlace α} {stop : Stop} (h : steps.on d = (.error stop, after))
    (next : α → InPlace β) : (steps >>= next).on d = (.error stop, after) := by
  have hrun : (steps >>= next).on d = ExceptT.bindCont next (steps.on d).1 (steps.on d).2 := rfl
  rw [hrun, h]
  rfl

theorem on_get (d : Document) : (get : InPlace Document).on d = (.ok d, d) := rfl

theorem on_modify (f : Document → Document) (d : Document) :
    (modify f : InPlace Unit).on d = (.ok (), f d) := rfl

theorem on_ask_of_ok {question : Document → Except EditError α} {a : α}
    (h : question d = .ok a) : (ask question).on d = (.ok a, d) := by
  have hrun : (ask question).on d = ((question d).mapError .refused, d) := rfl
  rw [hrun, h]
  rfl

theorem on_ask_of_error {question : Document → Except EditError α} {e : EditError}
    (h : question d = .error e) : (ask question).on d = (.error (.refused e), d) := by
  have hrun : (ask question).on d = ((question d).mapError .refused, d) := rfl
  rw [hrun, h]
  rfl

theorem on_record (path : Path) (edit : TextEdit) (d : Document) :
    (record path edit).on d =
      match d.record path edit with
      | .ok after => (.ok (), after)
      | .error e => (.error (.refused e), d) := by
  unfold record Document.record TextEdit.record?
  rw [on_bind_of_ok (on_get d)]
  split
  · rfl
  · rfl

theorem on_removeItem (path : Path) (index : Nat) (d : Document) :
    (removeItem path index).on d =
      match d.removeItem path index with
      | .ok (removed, after) => (.ok removed, after)
      | .error e => (.error (.refused e), d) := by
  unfold removeItem Document.removeItem
  cases hrange : d.removalRange path index with
  | error e =>
      rw [on_bind_of_error (on_ask_of_error hrange)]
      rfl
  | ok range =>
      obtain ⟨start, stop⟩ := range
      obtain ⟨info, items, item, hlines⟩ := removalRange_eq_ok.1 hrange
      have hrecord := on_record path ⟨start, stop, []⟩ d
      rw [on_bind_of_ok (on_ask_of_ok hrange)]
      cases hresult : d.record path ⟨start, stop, []⟩ with
      | error e =>
          rw [hresult] at hrecord
          rw [on_bind_of_error hrecord]
          simp only [hresult, bind, Except.bind]
      | ok recorded =>
          rw [hresult] at hrecord
          obtain ⟨edits, -, rfl⟩ := record_eq_ok.1 hresult
          obtain ⟨put, hslot, hput⟩ := Node.exists_slot?_of_at? hlines.found
          have hroot : d.root.update? path (withoutItem index) =
              some (put (.sequence info (items.eraseIdx index))) := by
            rw [← hput]
            exact Node.update?_congr hlines.found rfl
          rw [on_bind_of_ok hrecord, on_bind_of_ok (on_get _)]
          simp only [hslot, hlines.atIndex]
          rw [on_bind_of_ok (on_modify _ _)]
          simp only [hresult, bind, Except.bind, hlines.found, Option.bind_some, Node.items?,
            hlines.atIndex, hroot]
          rfl

theorem on_removeItem_eq_ok {path : Path} {index : Nat} {removed : Node} :
    (removeItem path index).on d = (.ok removed, after) ↔
      d.removeItem path index = .ok (removed, after) := by
  rw [on_removeItem]
  cases d.removeItem path index <;> simp [Prod.ext_iff]

theorem on_wrap (span : Span) (value : String) (d : Document) :
    (wrap span value).on d = (.ok (.ofString value span), d) := by
  have hnode : Node.ofJson span (.string value) = .ok (.ofString value span) := by
    simp [Node.ofJson, Node.ofJsonWithin]
  have hrun : (wrap span value).on d =
      ((Node.ofJson span (.string value)).mapError .notWrapped, d) := rfl
  rw [hrun, hnode]
  rfl

theorem exists_at?_of_scalarAt {path : Path} {style : ScalarStyle} {span : Span}
    (h : scalarAt d path = .ok (style, span)) : ∃ node, d.root.at? path = some node := by
  obtain ⟨node, hnode, -⟩ := bind_eq_ok.1 h
  exact ⟨node, nodeAt_eq_ok.1 hnode⟩

theorem replaceScalar_eq (d : Document) (path : Path) (value : String) :
    d.replaceScalar path value = (do
      let (style, span) ← scalarAt d path
      let edit ← d.replacement path style span value.toList
      let recorded ← d.record path edit
      let some root := d.root.update? path fun _ => .scalar ⟨span, .scalar style⟩ (.string value)
        | .error (.pathNotFound path)
      return { recorded with root }) := by
  unfold Document.replaceScalar scalarAt
  cases d.nodeAt path with
  | error e => rfl
  | ok node =>
      cases node with
      | sequence info items => rfl
      | mapping info entries => rfl
      | scalar info old =>
          obtain ⟨span, layout⟩ := info
          cases layout with
          | block => rfl
          | flow => rfl
          | synthetic => rfl
          | scalar style =>
              simp only [Node.scalar?, Node.layout, Node.info, Node.span, bind, Except.bind]
              cases d.checkOwned path (.scalar ⟨span, .scalar style⟩ old) <;> rfl

theorem on_replaceScalar (path : Path) (value : String) (d : Document) :
    (replaceScalar path value).on d =
      match d.replaceScalar path value with
      | .ok after => (.ok (), after)
      | .error e => (.error (.refused e), d) := by
  rw [replaceScalar_eq]
  unfold replaceScalar
  cases hscalar : scalarAt d path with
  | error e =>
      rw [on_bind_of_error (on_ask_of_error hscalar)]
      rfl
  | ok found =>
      obtain ⟨style, span⟩ := found
      rw [on_bind_of_ok (on_ask_of_ok hscalar)]
      cases hedit : d.replacement path style span value.toList with
      | error e =>
          rw [on_bind_of_error (on_ask_of_error hedit)]
          simp only [hedit, bind, Except.bind]
      | ok edit =>
          have hrecord := on_record path edit d
          rw [on_bind_of_ok (on_ask_of_ok hedit)]
          cases hresult : d.record path edit with
          | error e =>
              rw [hresult] at hrecord
              rw [on_bind_of_error hrecord]
              simp only [hedit, hresult, bind, Except.bind]
          | ok recorded =>
              rw [hresult] at hrecord
              obtain ⟨edits, -, rfl⟩ := record_eq_ok.1 hresult
              obtain ⟨node, hnode⟩ := exists_at?_of_scalarAt hscalar
              obtain ⟨put, hslot, hput⟩ := Node.exists_slot?_of_at? hnode
              rw [on_bind_of_ok hrecord, on_bind_of_ok (on_wrap span value _),
                on_bind_of_ok (on_get _)]
              simp only [hslot, hedit, hresult, bind, Except.bind, hput]
              rfl

end InPlace

def Change.inPlace : Change → InPlace Unit
  | .removeItem path index => discard (InPlace.removeItem path index)
  | .replaceScalar path value => InPlace.replaceScalar path value

theorem on_inPlace (d : Document) (change : Change) :
    change.inPlace.on d =
      match d.perform change with
      | .ok after => (.ok (), after)
      | .error e => (.error (.refused e), d) := by
  cases change with
  | replaceScalar path value => exact InPlace.on_replaceScalar path value d
  | removeItem path index =>
      have hremove := InPlace.on_removeItem path index d
      simp only [Change.inPlace, perform]
      cases h : d.removeItem path index with
      | error e =>
          rw [h] at hremove
          exact InPlace.on_bind_of_error hremove _
      | ok result =>
          rw [h] at hremove
          exact InPlace.on_bind_of_ok hremove _

theorem on_inPlace_eq_ok {d after : Document} {change : Change} :
    change.inPlace.on d = (.ok (), after) ↔ d.perform change = .ok after := by
  rw [on_inPlace]
  cases d.perform change <;> simp

/-- A document as edits in place leave it one after the other, refused ones included. -/
def runInPlace (d : Document) (changes : List Change) : Document :=
  changes.foldl (fun held change => (change.inPlace.on held).2) d

theorem runInPlace_eq_run (d : Document) (changes : List Change) :
    d.runInPlace changes = d.run changes := by
  have hstep : (fun (held : Document) (change : Change) => (change.inPlace.on held).2) =
      afterChange := by
    funext held change
    rw [on_inPlace]
    unfold afterChange
    cases held.perform change <;> rfl
  unfold runInPlace run
  rw [hstep]

/-- Whatever was asked of a document before, an edit in place that stops has been refused, and has
left the configuration and the recorded edits as they were. -/
theorem runInPlace_of_error {d after : Document} {changes : List Change} {change : Change}
    {stop : Stop} (h : change.inPlace.on (d.runInPlace changes) = (.error stop, after)) :
    after = d.runInPlace changes ∧
      ∃ e, stop = .refused e ∧ (d.runInPlace changes).perform change = .error e := by
  rw [on_inPlace] at h
  cases hperform : (d.runInPlace changes).perform change with
  | ok done => simp [hperform] at h
  | error e =>
      simp only [hperform, Prod.mk.injEq, Except.error.injEq] at h
      exact ⟨h.2.symm, e, h.1.symm, rfl⟩

/-- The string is written up to the end of the text, and the entry ends before the blank line. -/
theorem runInPlace_of_conflict :
    ∃ d registry', Document.parse .empty "- a\n- |\n  b\n\n" none = (.ok d, registry') ∧
      let held := d.runInPlace [.replaceScalar [.index 1] "x"]
      held.edits.length = 1 ∧
        (Change.removeItem [] 1).inPlace.on held = (.error (.refused (.conflict [])), held) := by
  have hrun : ((Document.parse .empty "- a\n- |\n  b\n\n" none).1.toOption.bind fun d =>
      let held := d.runInPlace [.replaceScalar [.index 1] "x"]
      some (held.edits.length, match ((Change.removeItem [] 1).inPlace.on held).1 with
        | .error (.refused e) => some e
        | _ => none)) = some (1, some (.conflict [])) := by decide +kernel
  obtain ⟨d, registry', h, hrun⟩ := exists_parse_of_bind hrun
  simp only [Option.some.injEq, Prod.mk.injEq] at hrun
  obtain ⟨hlength, hstop⟩ := hrun
  refine ⟨d, registry', h, hlength, ?_⟩
  rcases hon : (Change.removeItem [] 1).inPlace.on (d.runInPlace [.replaceScalar [.index 1] "x"])
    with ⟨result, after⟩
  rw [hon] at hstop
  cases result with
  | ok u => simp at hstop
  | error stop =>
      obtain ⟨hafter, e, rfl, -⟩ := runInPlace_of_error hon
      obtain rfl := Option.some.inj hstop
      rw [hafter]

end RuleTidy.Document
