import RuleTidy.Proofs.Document.Superseded

/-! What changes of a document leave where it was. A change is seen at its path, and what lies apart
from it is found as before. When an item is removed, the items behind it move up by one. -/

namespace RuleTidy.Document

open Yaml

variable {d after : Document}

theorem sameAround_perform {change : Change} (h : d.perform change = .ok after) :
    Node.SameAround change.path d.root after.root := by
  cases change with
  | removeItem path index =>
      obtain ⟨⟨removed, _⟩, hremove, rfl⟩ := map_eq_ok.1 h
      obtain ⟨info, items, -, -, hroot⟩ := root_removeItem hremove
      exact Node.sameAround_update? hroot
  | replaceScalar path value =>
      obtain ⟨info, old, -, hroot⟩ := root_replaceScalar h
      exact Node.sameAround_update? hroot

theorem at?_removeItem {path : Path} {index : Nat} {removed : Node}
    (h : d.removeItem path index = .ok (removed, after)) :
    d.root.at? (path ++ [.index index]) = some removed ∧
      (∀ k rest, after.root.at? (path ++ .index k :: rest) =
        d.root.at? (path ++ .index (if k < index then k else k + 1) :: rest)) ∧
      (after.root.at? path).map Node.info = (d.root.at? path).map Node.info := by
  obtain ⟨info, items, hlist, hitem, hroot⟩ := root_removeItem h
  have hafter : after.root.at? path = some (.sequence info (items.eraseIdx index)) := by
    rw [Node.at?_update? hroot, hlist, Option.map_some]
  refine ⟨?_, fun k rest => ?_, ?_⟩
  · rw [at?_inItem hlist, hitem]
    rfl
  · rw [at?_inItem hafter, at?_inItem hlist, List.getElem?_eraseIdx]
    split <;> rfl
  · rw [hafter, hlist]
    rfl

/-- Paths are a lens. In every configuration, a path that leads to a node leads to its slot too,
what is put there is found there, and all that lies apart from the path is as before. When an item
is removed from a document, the items before it stay, those behind it move up by one with all that
is in them, and again all that lies apart is as before. -/
theorem isLens_and_at?_removeItem (path : Path) :
    (∀ whole : Node, (whole.slot? path).map (·.node) = whole.at? path ∧
      ∀ slot, whole.slot? path = some slot → slot.IsLens whole path) ∧
    ∀ (d after : Document) (index : Nat) (removed : Node),
      (InPlace.removeItem path index).on d = (.ok removed, after) →
        d.root.at? (path ++ [.index index]) = some removed ∧
        (∀ k rest, after.root.at? (path ++ .index k :: rest) =
          d.root.at? (path ++ .index (if k < index then k else k + 1) :: rest)) ∧
        (after.root.at? path).map Node.info = (d.root.at? path).map Node.info ∧
        Node.SameAround path d.root after.root := by
  refine ⟨fun whole => ⟨whole.map_node_slot? path, fun slot => Node.isLens_slot?⟩, ?_⟩
  intro d after index removed h
  have hremove := InPlace.on_removeItem_eq_ok.1 h
  have hperform : d.perform (.removeItem path index) = .ok after := by
    rw [perform, hremove]
    rfl
  obtain ⟨hitem, hitems, hinfo⟩ := at?_removeItem hremove
  exact ⟨hitem, hitems, hinfo, sameAround_perform hperform⟩

/-- A list below a key that is repeated, behind a key that is no string. -/
theorem isLens_and_at?_removeItem_repeatedKey :
    ∃ d registry' slot removed after,
      Document.parse .empty "1: a\nk:\n- x\n- l: [y]\n- z\nk: b\n" none = (.ok d, registry') ∧
      d.root.slot? [.key "k", .index 1, .key "l"] = some slot ∧
      slot.IsLens d.root [.key "k", .index 1, .key "l"] ∧
      (InPlace.removeItem [.key "k"] 0).on d = (.ok removed, after) ∧
      after.render = "1: a\nk:\n- l: [y]\n- z\nk: b\n" ∧
      after.root.at? [.key "k", .index 0, .key "l"] = some slot.node := by
  have hrun : ((Document.parse .empty "1: a\nk:\n- x\n- l: [y]\n- z\nk: b\n" none).1.toOption.bind
      fun d => (d.root.at? [.key "k", .index 1, .key "l"]).bind fun _ =>
        (d.removeItem [.key "k"] 0).toOption.map fun removal => removal.2.render) =
      some "1: a\nk:\n- l: [y]\n- z\nk: b\n" := by decide +kernel
  obtain ⟨d, registry', hparse, hrun⟩ := exists_parse_of_bind hrun
  obtain ⟨held, hheld, hrun⟩ := Option.bind_eq_some_iff.1 hrun
  obtain ⟨⟨removed, after⟩, hremove, hrender⟩ := Option.map_eq_some_iff.1 hrun
  rw [toOption_eq_some] at hremove
  have hon := InPlace.on_removeItem_eq_ok.2 hremove
  obtain ⟨hlens, -⟩ := isLens_and_at?_removeItem [.key "k", .index 1, .key "l"]
  obtain ⟨-, hshift⟩ := isLens_and_at?_removeItem [.key "k"]
  obtain ⟨hnode, hlaws⟩ := hlens d.root
  rw [hheld] at hnode
  obtain ⟨slot, hslot, rfl⟩ := Option.map_eq_some_iff.1 hnode
  obtain ⟨-, hitems, -, -⟩ := hshift d after 0 removed hon
  exact ⟨d, registry', slot, removed, after, hparse, hslot, hlaws slot hslot, hon, hrender,
    (hitems 0 [.key "l"]).trans hheld⟩

end RuleTidy.Document
