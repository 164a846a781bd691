import RuleTidy.Proofs.Yaml.Slot

/-! The nodes that stand directly in a node, by their positions. A step of a path leads to one
position, and a change of the child there is a change at that position. -/

namespace RuleTidy.Yaml.Node

def children : Node → List Node
  | .scalar .. => []
  | .sequence _ items => items
  | .mapping _ entries => entries.map (·.2)

def withChildren (node : Node) (children : List Node) : Node :=
  match node with
  | .scalar info value => .scalar info value
  | .sequence info _ => .sequence info children
  | .mapping info entries => .mapping info ((entries.map (·.1)).zip children)

/-- The step that leads to the child at a position. None leads to the value of a key that is no
string, or that stands further up already. -/
def segmentAt? (node : Node) (n : Nat) : Option Segment :=
  match node with
  | .scalar .. => none
  | .sequence .. => some (.index n)
  | .mapping _ entries =>
    let keys := entries.map (·.1)
    (keys[n]?.bind (·.text?)).bind fun name =>
      if keys.findIdx? (·.text? = some name) = some n then some (.key name) else none

theorem children_induction {P : Node → Prop}
    (h : ∀ node, (∀ child ∈ node.children, P child) → P node) (node : Node) : P node := by
  induction node using Node.induction with
  | scalar info value => exact h _ nofun
  | sequence info items ih => exact h _ ih
  | mapping info entries ih =>
      refine h _ fun child hchild => ?_
      obtain ⟨entry, hentry, rfl⟩ := List.mem_map.1 hchild
      exact (ih entry hentry).2

variable {node : Node} {children : List Node} {segment : Segment}

theorem children_withChildren (h : children.length = node.children.length) :
    (node.withChildren children).children = children := by
  cases node with
  | scalar info value => exact (List.eq_nil_of_length_eq_zero h).symm
  | sequence info items => rfl
  | mapping info entries =>
      exact List.map_snd_zip (Nat.le_of_eq (h.trans (by simp [Node.children])))

theorem segmentAt?_withChildren (h : children.length = node.children.length) (n : Nat) :
    (node.withChildren children).segmentAt? n = node.segmentAt? n := by
  cases node with
  | scalar info value => rfl
  | sequence info items => rfl
  | mapping info entries =>
      have hkeys : ((entries.map (·.1)).zip children).map (·.1) = entries.map (·.1) :=
        List.map_fst_zip (Nat.le_of_eq (Eq.trans (by simp [Node.children]) h.symm))
      simp only [withChildren, segmentAt?, hkeys]

theorem withChildren_withChildren (h : children.length = node.children.length)
    (others : List Node) :
    (node.withChildren children).withChildren others = node.withChildren others := by
  cases node with
  | scalar info value => rfl
  | sequence info items => rfl
  | mapping info entries =>
      have hkeys : ((entries.map (·.1)).zip children).map (·.1) = entries.map (·.1) :=
        List.map_fst_zip (Nat.le_of_eq (Eq.trans (by simp [Node.children]) h.symm))
      simp only [withChildren, hkeys]

theorem withChildren_children (node : Node) : node.withChildren node.children = node := by
  cases node with
  | scalar info value => rfl
  | sequence info items => rfl
  | mapping info entries =>
      have hzip : (entries.map (·.1)).zip (entries.map (·.2)) = entries := by
        rw [List.zip_map', List.map_id']
      exact congrArg (Node.mapping info) hzip

theorem segmentAt?_mapping {info : Info} {entries : List (Node × Node)} {n : Nat} :
    (mapping info entries).segmentAt? n = some segment ↔
      ∃ name, segment = .key name ∧
        entries.findIdx? (fun entry => entry.1.text? = some name) = some n := by
  have hfind : ∀ name, (entries.map (·.1)).findIdx? (fun key => key.text? = some name) =
      entries.findIdx? fun entry => entry.1.text? = some name := fun name => List.findIdx?_map ..
  simp only [segmentAt?, hfind, Option.bind_eq_some_iff, Option.ite_none_right_eq_some,
    Option.some.injEq]
  constructor
  · rintro ⟨name, -, hfirst, rfl⟩
    exact ⟨name, rfl, hfirst⟩
  · rintro ⟨name, rfl, hfirst⟩
    obtain ⟨hlt, hkey, -⟩ := List.findIdx?_eq_some_iff_getElem.1 hfirst
    exact ⟨name, ⟨entries[n].1, by simp [hlt], of_decide_eq_true hkey⟩, hfirst, rfl⟩

theorem segmentAt?_injective {m n : Nat} (hm : node.segmentAt? m = some segment)
    (hn : node.segmentAt? n = some segment) : m = n := by
  cases node with
  | scalar info value => cases hm
  | sequence info items =>
      rw [← hn] at hm
      exact Segment.index.inj (Option.some.inj hm)
  | mapping info entries =>
      obtain ⟨name, rfl, hfirst⟩ := segmentAt?_mapping.1 hm
      obtain ⟨_, heq, hfirst'⟩ := segmentAt?_mapping.1 hn
      obtain rfl := Segment.key.inj heq
      exact Option.some.inj (hfirst.symm.trans hfirst')

theorem set_values {entries : List (Node × Node)} {key value : Node} {n : Nat}
    (h : entries[n]? = some (key, value)) (new : Node) :
    (entries.map (·.1)).zip ((entries.map (·.2)).set n new) = entries.set n (key, new) := by
  have hvalues : (entries.map (·.2)).set n new = (entries.set n (key, new)).map (·.2) := by
    rw [List.map_set]
  have hkeys : entries.map (·.1) = (entries.set n (key, new)).map (·.1) := by
    have hkey : (entries.map (·.1))[n]? = some key := by
      rw [List.getElem?_map, h, Option.map_some]
    obtain ⟨hlt, heq⟩ := List.getElem?_eq_some_iff.1 hkey
    rw [List.map_set, ← heq, List.set_getElem_self]
  rw [hvalues, hkeys, List.zip_map', List.map_id']

theorem exists_position {child : Node} (h : node.child? segment = some child) :
    ∃ n, node.segmentAt? n = some segment ∧ node.children[n]? = some child ∧
      ∀ new, node.setChild segment new = node.withChildren (node.children.set n new) := by
  cases segment with
  | index n =>
      obtain ⟨info, items, rfl, hitem⟩ := child?_index_eq_some.1 h
      exact ⟨n, rfl, hitem, fun _ => rfl⟩
  | key name =>
      obtain ⟨info, entries, rfl, hvalue⟩ := child?_key_eq_some.1 h
      obtain ⟨n, key, hfirst, hentry, hset⟩ := (findIdx?_valueOf? name entries).1 child hvalue
      refine ⟨n, segmentAt?_mapping.2 ⟨name, rfl, hfirst⟩, by simp [Node.children, hentry], ?_⟩
      exact fun new => congrArg (mapping info) ((set_values hentry new).trans (hset new)).symm

theorem child?_of_segmentAt? {n : Nat} (h : node.segmentAt? n = some segment) :
    node.child? segment = node.children[n]? := by
  cases node with
  | scalar info value => cases h
  | sequence info items =>
      obtain rfl := Option.some.inj h
      rfl
  | mapping info entries =>
      obtain ⟨name, rfl, hfirst⟩ := segmentAt?_mapping.1 h
      obtain ⟨hfound, hnone⟩ := findIdx?_valueOf? name entries
      cases hvalue : valueOf? name entries with
      | none =>
          rw [hnone hvalue] at hfirst
          cases hfirst
      | some value =>
          obtain ⟨m, key, hm, hentry, -⟩ := hfound value hvalue
          obtain rfl := Option.some.inj (hm.symm.trans hfirst)
          rw [child?, get?_mapping, hvalue]
          simp [Node.children, hentry]

end RuleTidy.Yaml.Node
