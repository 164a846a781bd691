import RuleTidy.Proofs.Yaml.Path
import RuleTidy.Yaml.Slot

/-! A slot holds the node at its path, and putting a node into it is the change at that path. So
slots have the laws of a lens. -/

namespace RuleTidy.Yaml

/-- What is put at a path is found there, putting back what was there changes nothing, the second of
two nodes that are put there counts, and around the path all stays. -/
structure Slot.IsLens (slot : Slot) (whole : Node) (path : Path) : Prop where
  at?_put : ∀ new, (slot.put new).at? path = some new
  put_node : slot.put slot.node = whole
  put_put : ∀ first second, ∃ again, (slot.put first).slot? path = some again ∧
    again.put second = slot.put second
  sameAround_put : ∀ new, Node.SameAround path whole (slot.put new)

namespace Node

theorem findIdx?_valueOf? (name : String) (entries : List (Node × Node)) :
    (∀ value, valueOf? name entries = some value →
      ∃ i key, entries.findIdx? (fun entry => entry.1.text? = some name) = some i ∧
        entries[i]? = some (key, value) ∧
        ∀ new, entries.set i (key, new) = setEntry name new entries) ∧
    (valueOf? name entries = none →
      entries.findIdx? (fun entry => entry.1.text? = some name) = none) := by
  induction entries with
  | nil => simp [valueOf?]
  | cons entry rest ih =>
      obtain ⟨key, old⟩ := entry
      simp only [valueOf?_cons, List.findIdx?_cons, setEntry]
      by_cases hkey : key.text? = some name
      · simp [hkey]
      · simp only [hkey, if_false, decide_false, Bool.false_eq_true, Option.map_eq_none_iff]
        refine ⟨fun value hvalue => ?_, ih.2⟩
        obtain ⟨i, key', hi, hentry, hset⟩ := ih.1 value hvalue
        exact ⟨i + 1, key', by rw [hi, Option.map_some], hentry,
          fun new => by rw [List.set_cons_succ, hset]⟩

@[simp] theorem slot?_nil (node : Node) : node.slot? [] = some ⟨node, id⟩ := by
  simp [slot?]

theorem slot?_cons (node : Node) (segment : Segment) (rest : Path) :
    node.slot? (segment :: rest) =
      (node.child? segment).bind fun child => (child.slot? rest).map fun slot =>
        ⟨slot.node, fun new => node.setChild segment (slot.put new)⟩ := by
  rw [slot?.eq_def]
  cases segment with
  | key name =>
      cases node with
      | scalar info value => rfl
      | sequence info items => rfl
      | mapping info entries =>
          obtain ⟨hfound, hnone⟩ := findIdx?_valueOf? name entries
          simp only [child?, get?_mapping, setChild]
          cases hvalue : valueOf? name entries with
          | none => simp [hnone hvalue]
          | some value =>
              obtain ⟨i, key, hi, hentry, hset⟩ := hfound value hvalue
              cases hslot : value.slot? rest <;> simp [hi, hentry, hslot, hset]
  | index n =>
      cases node with
      | scalar info value => rfl
      | mapping info entries => rfl
      | sequence info items =>
          cases hitem : items[n]? with
          | none => simp [child?, items?, hitem]
          | some item =>
              cases hslot : item.slot? rest <;> simp [child?, items?, hitem, hslot, setChild]

theorem exists_slot?_of_at? {node found : Node} {path : Path} (h : node.at? path = some found) :
    ∃ put, node.slot? path = some ⟨found, put⟩ ∧
      ∀ new, node.update? path (fun _ => new) = some (put new) := by
  induction path generalizing node with
  | nil =>
      obtain rfl := Option.some.inj h
      exact ⟨id, slot?_nil node, fun new => update?_nil node _⟩
  | cons segment rest ih =>
      rw [at?_cons, Option.bind_eq_some_iff] at h
      obtain ⟨child, hchild, hfound⟩ := h
      obtain ⟨put, hslot, hput⟩ := ih hfound
      refine ⟨fun new => node.setChild segment (put new), ?_, fun new => ?_⟩
      · rw [slot?_cons, hchild, Option.bind_some, hslot, Option.map_some]
      · exact update?_cons_eq_some.2 ⟨child, put new, hchild, hput new, rfl⟩

theorem map_node_slot? (node : Node) (path : Path) :
    (node.slot? path).map (·.node) = node.at? path := by
  induction path generalizing node with
  | nil => simp
  | cons segment rest ih =>
      rw [slot?_cons, at?_cons, Option.map_bind]
      refine congrArg (Option.bind _) (funext fun child => ?_)
      rw [← ih child, Function.comp_apply, Option.map_map]
      rfl

theorem slot?_eq_some {node : Node} {path : Path} {slot : Slot} (h : node.slot? path = some slot) :
    node.at? path = some slot.node ∧
      ∀ new, node.update? path (fun _ => new) = some (slot.put new) := by
  have hfound : node.at? path = some slot.node := by rw [← map_node_slot?, h, Option.map_some]
  obtain ⟨put, hslot, hput⟩ := exists_slot?_of_at? hfound
  have hsame : slot.put = put := congrArg Slot.put (Option.some.inj (h.symm.trans hslot))
  rw [hsame]
  exact ⟨hfound, hput⟩

theorem isLens_slot? {node : Node} {path : Path} {slot : Slot} (h : node.slot? path = some slot) :
    slot.IsLens node path := by
  obtain ⟨hfound, hput⟩ := slot?_eq_some h
  have hget : ∀ new, (slot.put new).at? path = some new := by
    intro new
    rw [at?_update? (hput new), hfound, Option.map_some]
  have hback : slot.put slot.node = node :=
    Option.some.inj ((hput slot.node).symm.trans (update?_at? hfound))
  refine ⟨hget, hback, fun first second => ?_, fun new => sameAround_update? (hput new)⟩
  obtain ⟨put, hslot, hagain⟩ := exists_slot?_of_at? (hget first)
  refine ⟨⟨first, put⟩, hslot, Option.some.inj ?_⟩
  rw [← hagain second, update?_update? (hput first)]
  exact hput second

end Node

end RuleTidy.Yaml
