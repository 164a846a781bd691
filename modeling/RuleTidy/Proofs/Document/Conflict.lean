import RuleTidy.Proofs.Document.InPlace

/-! Conflicts. A change asks for one edit of the text, and a conflict is refused on account of an
edit that was recorded before: the new one would overlap it without covering it. -/

namespace RuleTidy.Document

open InPlace Source Text Yaml

variable {d after : Document} {change : Change} {e : EditError}

def Change.path : Change → Path
  | .removeItem path _ => path
  | .replaceScalar path _ => path

def editFor (d : Document) : Change → Except EditError TextEdit
  | .removeItem path index => do
    let (start, stop) ← d.removalRange path index
    return ⟨start, stop, []⟩
  | .replaceScalar path value => do
    let (style, span) ← scalarAt d path
    d.replacement path style span value.toList

/-! What stops the search for the place of a change. Errors about the node there are of two kinds
that matter: no conflict comes up before the edit is recorded, and no node is taken for one from
elsewhere if it was read from the text of the document. -/

/-- An edit is refused on account of one that was recorded before. -/
def EditError.IsConflict : EditError → Prop
  | .conflict _ => True
  | _ => False

def LayoutProblem.IsForeign : LayoutProblem → Prop
  | .foreignNode => True
  | .scalarNotWritten => True
  | _ => False

def EditError.IsForeign : EditError → Prop
  | .unsupportedLayout _ problem => problem.IsForeign
  | _ => False

def takeItem (d recorded : Document) (path : Path) (index : Nat) :
    Except EditError (Node × Document) := do
  let some removed := (d.root.at? path).bind (·.items?) |>.bind (·[index]?)
    | .error (.pathNotFound path)
  let some root := d.root.update? path (withoutItem index) | .error (.pathNotFound path)
  return (removed, { recorded with root })

section Search

variable {bad : EditError → Prop} {path : Path}

theorem avoids_located {α : Type} {problem : LayoutProblem}
    (h : ¬bad (.unsupportedLayout path problem)) (found : Option α) :
    Avoids bad (located path problem found) := by
  cases found with
  | none => exact .error h
  | some place => exact .ok place

theorem avoids_nodeAt (h : ¬bad (.pathNotFound path)) (d : Document) :
    Avoids bad (d.nodeAt path) := by
  unfold nodeAt
  split
  · exact .ok _
  · exact .error h

theorem avoids_checkOwned {node : Node}
    (h : bad (.unsupportedLayout path .foreignNode) → node.span.source = some d.digest) :
    Avoids bad (d.checkOwned path node) := by
  unfold checkOwned
  split
  · exact .ok ()
  · next hforeign => exact .error fun hbad => hforeign (h hbad)

theorem avoids_removalRange {index : Nat} (hbad : ∀ e, bad e → e.IsConflict ∨ e.IsForeign)
    (howned : ∀ sequence items item, d.nodeAt path = .ok sequence → sequence.items? = some items →
      items[index]? = some item → Avoids bad (d.checkOwned path item)) :
    Avoids bad (d.removalRange path index) := by
  have hother : ∀ e : EditError, ¬e.IsConflict → ¬e.IsForeign → ¬bad e :=
    fun e hconflict hforeign he => (hbad e he).elim hconflict hforeign
  refine (avoids_nodeAt (hother _ id id) d).bind fun sequence hsequence => ?_
  cases hitems : sequence.items? with
  | none => exact .error (hother _ id id)
  | some items =>
      dsimp only
      cases hitem : items[index]? with
      | none => exact .error (hother _ id id)
      | some item =>
          refine .guard (hother _ id id) (.guard (hother _ id id) ?_)
          refine (howned sequence items item hsequence hitems hitem).bind fun _ _ => ?_
          refine (avoids_located (hother _ id id) _).bind fun start _ => ?_
          have hend : ∀ stop, Avoids bad (if stop ≤ start then
              Except.error (.unsupportedLayout path .sharedLine) >>=
                fun _ : PUnit => pure (start, stop)
              else pure (start, stop)) := fun stop => .guard (hother _ id id) (.ok _)
          cases items[index + 1]? with
          | none => exact hend _
          | some next => exact (avoids_located (hother _ id id) _).bind fun stop _ => hend stop

theorem avoids_scalarAt (hbad : ∀ e, bad e → e.IsConflict ∨ e.IsForeign)
    (howned : ∀ info value, d.nodeAt path = .ok (.scalar info value) →
      Avoids bad (d.checkOwned path (.scalar info value)))
    (hwritten : bad (.unsupportedLayout path .scalarNotWritten) → ∀ info value,
      d.nodeAt path = .ok (.scalar info value) → ∃ style, info.layout = .scalar style) :
    Avoids bad (scalarAt d path) := by
  have hother : ∀ e : EditError, ¬e.IsConflict → ¬e.IsForeign → ¬bad e :=
    fun e hconflict hforeign he => (hbad e he).elim hconflict hforeign
  refine (avoids_nodeAt (hother _ id id) d).bind fun node hnode => ?_
  cases node with
  | sequence info items => exact .error (hother _ id id)
  | mapping info entries => exact .error (hother _ id id)
  | scalar info value =>
      refine .guard (hother _ id id) ?_
      have hlayout : (Node.scalar info value).layout = info.layout := rfl
      have hnot : (∀ style, info.layout ≠ .scalar style) →
          ¬bad (.unsupportedLayout path .scalarNotWritten) := fun hnone hforeign =>
        let ⟨style, hstyle⟩ := hwritten hforeign info value hnode
        hnone style hstyle
      rw [hlayout]
      cases hstyle : info.layout with
      | scalar style => exact (howned info value hnode).bind fun _ _ => .ok _
      | block => exact .error (hnot (by simp [hstyle]))
      | flow => exact .error (hnot (by simp [hstyle]))
      | synthetic => exact .error (hnot (by simp [hstyle]))

theorem avoids_replacement (hbad : ∀ e, bad e → e.IsConflict ∨ e.IsForeign) (d : Document)
    (style : ScalarStyle) (span : Span) (value : List Char) :
    Avoids bad (d.replacement path style span value) := by
  have hmissing : ¬bad (.unsupportedLayout path .headerMissing) := fun h => (hbad _ h).elim id id
  cases style with
  | literal => exact (avoids_located hmissing _).bind fun _ _ => .ok _
  | folded => exact (avoids_located hmissing _).bind fun _ _ => .ok _
  | plain => exact .ok _
  | singleQuoted => exact .ok _
  | doubleQuoted => exact .ok _

theorem avoids_takeItem (h : ¬bad (.pathNotFound path)) (d recorded : Document) (index : Nat) :
    Avoids bad (d.takeItem recorded path index) := by
  unfold takeItem
  split
  · split
    · exact .ok _
    · exact .error h
  · exact .error h

end Search

/-- Whether something succeeds or not, no conflict stops it. -/
def Unopposed {α : Type} (x : Except EditError α) : Prop := ∀ path, x ≠ .error (.conflict path)

theorem unopposed_of_avoids {α : Type} {x : Except EditError α}
    (h : Avoids EditError.IsConflict x) : Unopposed x := fun path => h (.conflict path) trivial

theorem unopposed_removalRange (d : Document) (path : Path) (index : Nat) :
    Unopposed (d.removalRange path index) :=
  unopposed_of_avoids (avoids_removalRange (fun _ => .inl) fun _ _ _ _ _ _ =>
    avoids_checkOwned False.elim)

theorem unopposed_scalarAt (d : Document) (path : Path) : Unopposed (scalarAt d path) :=
  unopposed_of_avoids (avoids_scalarAt (fun _ => .inl) (fun _ _ _ => avoids_checkOwned False.elim)
    False.elim)

theorem unopposed_replacement (d : Document) (path : Path) (style : ScalarStyle) (span : Span)
    (value : List Char) : Unopposed (d.replacement path style span value) :=
  unopposed_of_avoids (avoids_replacement (fun _ => .inl) d style span value)

/-! When recording is. -/

theorem record_eq_error {path : Path} {edit : TextEdit} :
    d.record path edit = .error e ↔ e = .conflict path ∧ edit.record? d.edits = none := by
  unfold record
  cases edit.record? d.edits <;> simp [eq_comm]

theorem recording_eq_conflict {α β : Type} {x : Except EditError α} (edit : α → TextEdit)
    {rest : α → Document → Except EditError β} {path path' : Path} (hx : Unopposed x)
    (hrest : ∀ a recorded, Unopposed (rest a recorded)) :
    (x >>= fun a => d.record path (edit a) >>= rest a) = .error (.conflict path') ↔
      path = path' ∧ ∃ a, x = .ok a ∧ (edit a).record? d.edits = none := by
  constructor
  · intro h
    rcases bind_eq_error.1 h with h | ⟨a, ha, h⟩
    · exact absurd h (hx path')
    · rcases bind_eq_error.1 h with h | ⟨recorded, -, h⟩
      · obtain ⟨heq, hnone⟩ := record_eq_error.1 h
        exact ⟨(EditError.conflict.inj heq).symm, a, ha, hnone⟩
      · exact absurd h (hrest a recorded path')
  · rintro ⟨rfl, a, ha, hnone⟩
    have hrecord : d.record path (edit a) = .error (.conflict path) :=
      record_eq_error.2 ⟨rfl, hnone⟩
    exact bind_eq_error.2 (.inr ⟨a, ha, bind_eq_error.2 (.inl hrecord)⟩)

theorem removeItem_eq_conflict {path path' : Path} {index : Nat} :
    d.removeItem path index = .error (.conflict path') ↔
      path = path' ∧ ∃ edit, d.editFor (.removeItem path index) = .ok edit ∧
        edit.record? d.edits = none := by
  have hrest : ∀ (_ : Nat × Nat) recorded, Unopposed (d.takeItem recorded path index) :=
    fun _ recorded => unopposed_of_avoids (avoids_takeItem id d recorded index)
  refine (recording_eq_conflict (fun range => ⟨range.1, range.2, []⟩)
    (unopposed_removalRange d path index) hrest).trans ?_
  simp only [editFor, bind_eq_ok, pure_eq_ok]
  constructor
  · rintro ⟨rfl, range, hrange, hnone⟩
    exact ⟨rfl, _, ⟨range, hrange, rfl⟩, hnone⟩
  · rintro ⟨rfl, _, ⟨range, hrange, rfl⟩, hnone⟩
    exact ⟨rfl, range, hrange, hnone⟩

theorem replaceScalar_eq_conflict {path path' : Path} {value : String} :
    d.replaceScalar path value = .error (.conflict path') ↔
      path = path' ∧ ∃ edit, d.editFor (.replaceScalar path value) = .ok edit ∧
        edit.record? d.edits = none := by
  rw [replaceScalar_eq, editFor]
  cases hscalar : scalarAt d path with
  | error e =>
      have he : e ≠ .conflict path' := fun he => unopposed_scalarAt d path path' (he ▸ hscalar)
      simp [bind, Except.bind, he]
  | ok place =>
      obtain ⟨style, span⟩ := place
      refine recording_eq_conflict id (unopposed_replacement d path style span value.toList)
        fun edit recorded => ?_
      split <;> exact nofun

/-- A change is refused with a conflict if and only if a recorded edit does not let its own be
recorded. -/
theorem perform_eq_conflict {path : Path} :
    d.perform change = .error (.conflict path) ↔
      change.path = path ∧ ∃ edit, d.editFor change = .ok edit ∧
        ∃ other ∈ d.edits, edit.overlaps other = true ∧ edit.covers other = false := by
  have hnone : ∀ edit : TextEdit, edit.record? d.edits = none ↔
      ∃ other ∈ d.edits, edit.overlaps other = true ∧ edit.covers other = false := by
    intro edit
    simp [TextEdit.record?]
  simp only [← hnone]
  cases change with
  | replaceScalar path value => exact replaceScalar_eq_conflict
  | removeItem path index => exact map_eq_error.trans removeItem_eq_conflict

/-! Changes one after the other, until one is refused. -/

theorem mem_of_record? {edits after : List TextEdit} {edit other : TextEdit}
    (h : edit.record? edits = some after) (hother : other ∈ after) :
    other = edit ∨ other ∈ edits := by
  unfold TextEdit.record? at h
  split at h
  · cases h
  · rw [← Option.some.inj h] at hother
    rcases List.mem_append.1 hother with hkept | hnew
    · exact .inr (List.mem_filter.1 hkept).1
    · exact .inl (List.mem_singleton.1 hnew)

theorem editFor_of_perform (h : d.perform change = .ok after) :
    ∃ edit, d.editFor change = .ok edit ∧ edit.record? d.edits = some after.edits := by
  cases change with
  | removeItem path index =>
      obtain ⟨⟨removed, _⟩, hremove, rfl⟩ := map_eq_ok.1 h
      obtain ⟨start, stop, info, items, edits, root, hlines, hedits, -, rfl⟩ :=
        removeItem_eq_ok.1 hremove
      have hrange := removalRange_eq_ok.2 ⟨info, items, removed, hlines⟩
      exact ⟨⟨start, stop, []⟩, bind_eq_ok.2 ⟨(start, stop), hrange, rfl⟩, hedits⟩
  | replaceScalar path value =>
      obtain ⟨place, hplace, h⟩ := bind_eq_ok.1 ((replaceScalar_eq d path value).symm.trans h)
      obtain ⟨edit, hedit, h⟩ := bind_eq_ok.1 h
      obtain ⟨recorded, hrecorded, h⟩ := bind_eq_ok.1 h
      obtain ⟨edits, hedits, rfl⟩ := record_eq_ok.1 hrecorded
      refine ⟨edit, bind_eq_ok.2 ⟨place, hplace, hedit⟩, ?_⟩
      dsimp only at h
      split at h
      · rw [← pure_eq_ok.1 h]
        exact hedits
      · cases h

theorem edits_ne_nil_of_foldlM_perform {after : Document} {changes : List Change}
    (h : changes.foldlM perform d = .ok after) (hne : changes ≠ []) : after.edits ≠ [] := by
  rcases List.eq_nil_or_concat changes with rfl | ⟨before, last, rfl⟩
  · exact absurd rfl hne
  · rw [List.concat_eq_append, List.foldlM_append] at h
    obtain ⟨between, -, h⟩ := bind_eq_ok.1 h
    obtain ⟨_, hlast, heq⟩ := bind_eq_ok.1 h
    obtain rfl := pure_eq_ok.1 heq
    obtain ⟨edit, -, hrecord⟩ := editFor_of_perform hlast
    unfold TextEdit.record? at hrecord
    split at hrecord
    · cases hrecord
    · rw [← Option.some.inj hrecord]
      exact List.append_ne_nil_of_right_ne_nil _ (List.cons_ne_nil _ _)

theorem editFor_of_mem {held : Document} {changes : List Change}
    (h : changes.foldlM perform d = .ok held) {other : TextEdit} (hother : other ∈ held.edits) :
    other ∈ d.edits ∨ ∃ before change rest between, changes = before ++ change :: rest ∧
      before.foldlM perform d = .ok between ∧ between.editFor change = .ok other := by
  induction changes generalizing d with
  | nil => exact .inl (pure_eq_ok.1 h ▸ hother)
  | cons change rest ih =>
      obtain ⟨next, hnext, h⟩ := bind_eq_ok.1 h
      rcases ih h with hmem | ⟨before, change', rest', between, rfl, hbefore, hedit⟩
      · obtain ⟨edit, hedit, hrecord⟩ := editFor_of_perform hnext
        rcases mem_of_record? hrecord hmem with rfl | hmem
        · exact .inr ⟨[], change, rest, d, rfl, rfl, hedit⟩
        · exact .inl hmem
      · exact .inr ⟨change :: before, change', rest', between, rfl,
          bind_eq_ok.2 ⟨next, hnext, hbefore⟩, hedit⟩

end RuleTidy.Document
