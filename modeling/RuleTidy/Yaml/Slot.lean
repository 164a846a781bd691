import RuleTidy.Yaml.Path

/-! Slots of a configuration, which another node can take. -/

namespace RuleTidy.Yaml

structure Slot where
  node : Node
  put : Node → Node

namespace Node

/-- The slot at the end of a path. Each step is taken only at the kind of collection that it is
for, and a key stands for the first entry that has it. -/
def slot? (node : Node) : Path → Option Slot
  | [] => some ⟨node, id⟩
  | segment :: rest =>
    match segment, node with
    | .key name, .mapping info entries => do
      let i ← entries.findIdx? fun entry => entry.1.text? = some name
      let (key, value) ← entries[i]?
      let slot ← value.slot? rest
      return { slot with put new := .mapping info (entries.set i (key, slot.put new)) }
    | .index n, .sequence info items => do
      let item ← items[n]?
      let slot ← item.slot? rest
      return { slot with put new := .sequence info (items.set n (slot.put new)) }
    | _, _ => none

end Node

end RuleTidy.Yaml
