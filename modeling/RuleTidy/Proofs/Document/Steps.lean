import RuleTidy.Document.Basic
import RuleTidy.Proofs.Chain
import RuleTidy.Proofs.Yaml.Path

/-! What a successful edit of a document has found, and what it leaves. Each operation has one
statement that says all of it. -/

namespace RuleTidy.Document

open Source Text Yaml

theorem nodeAt_eq_ok {d : Document} {path : Path} {node : Node} :
    d.nodeAt path = .ok node ↔ d.root.at? path = some node := by
  unfold nodeAt
  split <;> simp_all

theorem located_eq_ok {α : Type} {path : Path} {problem : LayoutProblem} {found : Option α}
    {place : α} : located path problem found = .ok place ↔ found = some place := by
  cases found <;> simp [located]

theorem checkOwned_eq_ok {d : Document} {path : Path} {node : Node} {u : Unit} :
    d.checkOwned path node = .ok u ↔ node.span.source = some d.digest := by
  unfold checkOwned
  split <;> simp_all

theorem record_eq_ok {d after : Document} {path : Path} {edit : TextEdit} :
    d.record path edit = .ok after ↔
      ∃ edits, edit.record? d.edits = some edits ∧ after = { d with edits } := by
  unfold record
  cases edit.record? d.edits <;> simp [eq_comm]

/-- The end of the lines of an entry that start at `start`, as far as it can be told. -/
def entryStop? (text : List Char) (items : List Node) (index start : Nat) (item : Node) :
    Option Nat :=
  match items[index + 1]? with
  | some next => entryStart? text next
  | none =>
    let stop := entryEnd text item
    some (if followsBlankLine text start then skipBlankLines text stop else stop)

/-- The item at an index of the sequence at a path stands on the lines from `start` up to `stop`,
and they can be taken away. -/
structure HasLines (d : Document) (path : Path) (index start stop : Nat) (info : Info)
    (items : List Node) (item : Node) : Prop where
  found : d.root.at? path = some (.sequence info items)
  atIndex : items[index]? = some item
  block : info.layout = .block
  two_le : 2 ≤ items.length
  owned : item.span.source = some d.digest
  starts : entryStart? d.text item = some start
  stops : entryStop? d.text items index start item = some stop
  lt : start < stop

theorem removalRange_eq_ok {d : Document} {path : Path} {index start stop : Nat} :
    d.removalRange path index = .ok (start, stop) ↔
      ∃ info items item, d.HasLines path index start stop info items item := by
  unfold removalRange
  simp only [bind_eq_ok, nodeAt_eq_ok]
  constructor
  · rintro ⟨sequence, hfound, h⟩
    cases sequence with
    | scalar info value => simp [Node.items?] at h
    | mapping info entries => simp [Node.items?] at h
    | sequence info items =>
        cases hitem : items[index]? with
        | none => simp [Node.items?, hitem] at h
        | some item =>
            simp only [Node.items?, hitem, guard_eq_ok, bind_eq_ok, checkOwned_eq_ok,
              located_eq_ok] at h
            obtain ⟨hblock, htwo, _, howned, start', hstart, h⟩ := h
            -- an item ends where the next one starts, or where its own content ends
            have hstop : ∃ stop', entryStop? d.text items index start' item = some stop' ∧
                ¬stop' ≤ start' ∧ (start', stop') = (start, stop) := by
              unfold entryStop?
              cases hnext : items[index + 1]? with
              | none => simpa only [hnext, guard_eq_ok, pure_eq_ok, bind_eq_ok, Option.some.injEq] using h
              | some next =>
                  simpa only [hnext, guard_eq_ok, pure_eq_ok, bind_eq_ok, located_eq_ok] using h
            obtain ⟨stop', hstop, hlt, heq⟩ := hstop
            obtain ⟨rfl, rfl⟩ := Prod.mk.inj heq
            exact ⟨info, items, item, hfound, hitem, Classical.not_not.1 hblock, by omega, howned,
              hstart, hstop, by omega⟩
  · rintro ⟨info, items, item, h⟩
    have hstop := h.stops
    have htwo := h.two_le
    have hlt := h.lt
    refine ⟨_, h.found, ?_⟩
    simp only [Node.items?, h.atIndex, guard_eq_ok, bind_eq_ok, checkOwned_eq_ok, located_eq_ok]
    refine ⟨not_not_intro h.block, by omega, (), h.owned, start, h.starts, ?_⟩
    unfold entryStop? at hstop
    cases hnext : items[index + 1]? with
    | none =>
        simp only [hnext, Option.some.injEq] at hstop
        simp only [guard_eq_ok, pure_eq_ok, bind_eq_ok]
        exact ⟨stop, hstop, by omega, rfl⟩
    | some next =>
        simp only [hnext] at hstop
        simp only [guard_eq_ok, pure_eq_ok, bind_eq_ok, located_eq_ok]
        exact ⟨stop, hstop, by omega, rfl⟩

theorem removeItem_eq_ok {d after : Document} {path : Path} {index : Nat} {removed : Node} :
    d.removeItem path index = .ok (removed, after) ↔
      ∃ start stop info items edits root,
        d.HasLines path index start stop info items removed ∧
        TextEdit.record? d.edits ⟨start, stop, []⟩ = some edits ∧
        d.root.update? path (withoutItem index) = some root ∧ after = { d with root, edits } := by
  unfold removeItem
  simp only [bind_eq_ok, record_eq_ok]
  constructor
  · rintro ⟨⟨start, stop⟩, hrange, recorded, ⟨edits, hedits, rfl⟩, h⟩
    obtain ⟨info, items, item, hlines⟩ := removalRange_eq_ok.1 hrange
    simp only [hlines.found, Option.bind_some, Node.items?, hlines.atIndex] at h
    cases hroot : d.root.update? path (withoutItem index) with
    | none => simp [hroot] at h
    | some root =>
        simp only [hroot, pure_eq_ok, Prod.mk.injEq] at h
        obtain ⟨rfl, rfl⟩ := h
        exact ⟨start, stop, info, items, edits, root, hlines, hedits, rfl, rfl⟩
  · rintro ⟨start, stop, info, items, edits, root, hlines, hedits, hroot, rfl⟩
    refine ⟨(start, stop), removalRange_eq_ok.2 ⟨info, items, removed, hlines⟩, _,
      ⟨edits, hedits, rfl⟩, ?_⟩
    simp only [hlines.found, Option.bind_some, Node.items?, hlines.atIndex, hroot]
    rfl

theorem root_removeItem {d after : Document} {path : Path} {index : Nat} {removed : Node}
    (h : d.removeItem path index = .ok (removed, after)) :
    ∃ info items, d.root.at? path = some (.sequence info items) ∧ items[index]? = some removed ∧
      d.root.update? path (fun _ => .sequence info (items.eraseIdx index)) = some after.root := by
  obtain ⟨start, stop, info, items, edits, root, hlines, -, hroot, rfl⟩ := removeItem_eq_ok.1 h
  refine ⟨info, items, hlines.found, hlines.atIndex, ?_⟩
  rw [← hroot]
  exact Node.update?_congr hlines.found rfl

def scalarStart? (text : List Char) (style : ScalarStyle) (content : Nat) : Option Nat :=
  match style with
  | .literal | .folded => headerStart? text content
  | _ => some content

theorem scalarStart?_inline {style : ScalarStyle} (h : style ≠ .literal ∧ style ≠ .folded)
    (text : List Char) (content : Nat) : scalarStart? text style content = some content := by
  cases style with
  | literal => exact absurd rfl h.1
  | folded => exact absurd rfl h.2
  | plain | singleQuoted | doubleQuoted => rfl

def rewriting (text : List Char) (style : ScalarStyle) (span : Span) (value : List Char)
    (start : Nat) : TextEdit :=
  let stop := max (span.stop.offset text) (span.start.offset text)
  let current := slice text start stop
  ⟨start, stop, Written.render style value (blockIndent text current span.start) ++
    current.drop (trimEnd current).length⟩

theorem replacement_eq_ok {d : Document} {path : Path} {style : ScalarStyle} {span : Span}
    {value : List Char} {edit : TextEdit} :
    d.replacement path style span value = .ok edit ↔
      ∃ start, scalarStart? d.text style (span.start.offset d.text) = some start ∧
        edit = rewriting d.text style span value start := by
  unfold replacement scalarStart? rewriting
  cases style <;>
    simp only [bind_eq_ok, located_eq_ok, pure_eq_ok, Option.some.injEq, eq_comm (a := edit)]

theorem replaceScalar_eq_ok {d after : Document} {path : Path} {value : String} :
    d.replaceScalar path value = .ok after ↔
      ∃ info old style start edits root,
        d.root.at? path = some (.scalar info old) ∧ info.layout = .scalar style ∧
        info.span.source = some d.digest ∧
        scalarStart? d.text style (info.span.start.offset d.text) = some start ∧
        (rewriting d.text style info.span value.toList start).record? d.edits = some edits ∧
        d.root.update? path (fun _ => .scalar ⟨info.span, .scalar style⟩ (.string value)) =
          some root ∧
        after = { d with root, edits } := by
  unfold replaceScalar
  simp only [bind_eq_ok, nodeAt_eq_ok]
  constructor
  · rintro ⟨node, hfound, h⟩
    cases node with
    | sequence info items => simp [Node.scalar?, bind, Except.bind] at h
    | mapping info entries => simp [Node.scalar?, bind, Except.bind] at h
    | scalar info old =>
        simp only [Node.scalar?, Option.isNone_some, Bool.false_eq_true, if_false] at h
        cases hlayout : info.layout with
        | block => simp [Node.layout, Node.info, hlayout] at h
        | flow => simp [Node.layout, Node.info, hlayout] at h
        | synthetic => simp [Node.layout, Node.info, hlayout] at h
        | scalar style =>
            simp only [Node.layout, Node.info, hlayout, bind_eq_ok, checkOwned_eq_ok,
              replacement_eq_ok, record_eq_ok] at h
            obtain ⟨_, howned, edit, ⟨start, hstart, rfl⟩, _, ⟨edits, hedits, rfl⟩, h⟩ := h
            cases hroot : d.root.update? path fun _ =>
                .scalar ⟨info.span, .scalar style⟩ (.string value) with
            | none => simp [Node.span, Node.info, hroot] at h
            | some root =>
                simp only [Node.span, Node.info, hroot, pure_eq_ok] at h
                exact ⟨info, old, style, start, edits, root, hfound, hlayout, howned, hstart, hedits,
                  hroot, h.symm⟩
  · rintro ⟨info, old, style, start, edits, root, hfound, hlayout, howned, hstart, hedits, hroot,
      rfl⟩
    refine ⟨_, hfound, ?_⟩
    simp only [Node.scalar?, Option.isNone_some, Bool.false_eq_true, if_false, Node.layout,
      Node.info, hlayout, bind_eq_ok, checkOwned_eq_ok, replacement_eq_ok, record_eq_ok]
    refine ⟨(), howned, _, ⟨start, hstart, rfl⟩, _, ⟨edits, hedits, rfl⟩, ?_⟩
    simp only [Node.span, Node.info, hroot]
    rfl

theorem root_replaceScalar {d after : Document} {path : Path} {value : String}
    (h : d.replaceScalar path value = .ok after) :
    ∃ info old, d.root.at? path = some (.scalar info old) ∧
      d.root.update? path (fun _ => .scalar info (.string value)) = some after.root := by
  obtain ⟨info, old, style, start, edits, root, hfound, hlayout, -, -, -, hroot, rfl⟩ :=
    replaceScalar_eq_ok.1 h
  refine ⟨info, old, hfound, ?_⟩
  rw [← hroot, ← hlayout]

end RuleTidy.Document
