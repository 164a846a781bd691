import RuleTidy.Yaml.Path

/-! Following a path and changing what it leads to are a lens. A change is seen at its path and on
the way to it, and nowhere else. -/

namespace RuleTidy.Yaml.Node

def valueOf? (name : String) (entries : List (Node × Node)) : Option Node :=
  (entries.find? fun entry => entry.1.text? = some name).map (·.2)

theorem valueOf?_cons (name : String) (key value : Node) (rest : List (Node × Node)) :
    valueOf? name ((key, value) :: rest) =
      if key.text? = some name then some value else valueOf? name rest := by
  unfold valueOf?
  rw [List.find?_cons]
  by_cases h : key.text? = some name <;> simp [h]

theorem valueOf?_setEntry_self {name : String} {value old : Node} {entries : List (Node × Node)}
    (h : valueOf? name entries = some old) :
    valueOf? name (setEntry name value entries) = some value := by
  induction entries with
  | nil => simp [valueOf?] at h
  | cons entry rest ih =>
      obtain ⟨key, first⟩ := entry
      rw [valueOf?_cons] at h
      unfold setEntry
      by_cases hkey : key.text? = some name
      · simp only [hkey, if_true, valueOf?_cons]
      · simp only [hkey, if_false] at h ⊢
        rw [valueOf?_cons, if_neg hkey]
        exact ih h

theorem valueOf?_setEntry_of_ne {name other : String} (h : other ≠ name) (value : Node)
    (entries : List (Node × Node)) :
    valueOf? other (setEntry name value entries) = valueOf? other entries := by
  induction entries with
  | nil => rfl
  | cons entry rest ih =>
      obtain ⟨key, first⟩ := entry
      unfold setEntry
      by_cases hkey : key.text? = some name
      · have hother : ¬key.text? = some other := by
          rw [hkey]
          exact fun heq => h (Option.some.inj heq).symm
        simp only [hkey, if_true, valueOf?_cons, Option.some.injEq, h.symm, if_false]
      · simp only [hkey, if_false, valueOf?_cons, ih]

theorem setEntry_valueOf? {name : String} {value : Node} {entries : List (Node × Node)}
    (h : valueOf? name entries = some value) : setEntry name value entries = entries := by
  induction entries with
  | nil => rfl
  | cons entry rest ih =>
      obtain ⟨key, first⟩ := entry
      rw [valueOf?_cons] at h
      unfold setEntry
      by_cases hkey : key.text? = some name
      · simp only [hkey, if_true, Option.some.injEq] at h ⊢
        rw [h]
      · simp only [hkey, if_false] at h ⊢
        rw [ih h]

theorem setEntry_setEntry (name : String) (first second : Node) (entries : List (Node × Node)) :
    setEntry name second (setEntry name first entries) = setEntry name second entries := by
  induction entries with
  | nil => rfl
  | cons entry rest ih =>
      obtain ⟨key, old⟩ := entry
      by_cases hkey : key.text? = some name
      · simp only [setEntry, hkey, if_true]
      · simp only [setEntry, hkey, if_false, ih]

theorem get?_mapping (info : Info) (entries : List (Node × Node)) (name : String) :
    (mapping info entries).get? name = valueOf? name entries := rfl

theorem child?_key_eq_some {node child : Node} {name : String} :
    node.child? (.key name) = some child ↔
      ∃ info entries, node = .mapping info entries ∧ valueOf? name entries = some child := by
  cases node with
  | scalar info value => simp [child?, get?]
  | sequence info items => simp [child?, get?]
  | mapping info entries => simp [child?, get?_mapping, and_assoc]

theorem child?_index_eq_some {node child : Node} {n : Nat} :
    node.child? (.index n) = some child ↔
      ∃ info items, node = .sequence info items ∧ items[n]? = some child := by
  cases node <;> simp [child?, items?, and_assoc]

/-! One step of a path. -/

theorem child?_setChild_self {node child : Node} {segment : Segment} (value : Node)
    (h : node.child? segment = some child) :
    (node.setChild segment value).child? segment = some value := by
  cases segment with
  | key name =>
      obtain ⟨info, entries, rfl, hold⟩ := child?_key_eq_some.1 h
      exact valueOf?_setEntry_self hold
  | index n =>
      obtain ⟨info, items, rfl, hold⟩ := child?_index_eq_some.1 h
      have hlt : n < items.length := (List.getElem?_eq_some_iff.1 hold).1
      simp only [setChild, child?, items?, Option.bind_some]
      rw [List.getElem?_set_self hlt]

theorem child?_setChild_of_ne {segment other : Segment} (h : other ≠ segment) (node value : Node) :
    (node.setChild segment value).child? other = node.child? other := by
  cases segment with
  | key name =>
      cases node with
      | scalar info old => rfl
      | sequence info items => rfl
      | mapping info entries =>
          cases other with
          | index n => rfl
          | key name' =>
              have hne : name' ≠ name := fun heq => h (congrArg Segment.key heq)
              exact valueOf?_setEntry_of_ne hne value entries
  | index n =>
      cases node with
      | scalar info old => rfl
      | mapping info entries => rfl
      | sequence info items =>
          cases other with
          | key name => rfl
          | index n' =>
              have hne : n ≠ n' := fun heq => h (congrArg Segment.index heq.symm)
              simp only [setChild, child?, items?, Option.bind_some]
              rw [List.getElem?_set_ne hne]

theorem setChild_child? {node child : Node} {segment : Segment}
    (h : node.child? segment = some child) : node.setChild segment child = node := by
  cases segment with
  | key name =>
      obtain ⟨info, entries, rfl, hold⟩ := child?_key_eq_some.1 h
      simp only [setChild, setEntry_valueOf? hold]
  | index n =>
      obtain ⟨info, items, rfl, hold⟩ := child?_index_eq_some.1 h
      obtain ⟨hlt, rfl⟩ := List.getElem?_eq_some_iff.1 hold
      simp only [setChild, List.set_getElem_self]

theorem setChild_setChild (node first second : Node) (segment : Segment) :
    (node.setChild segment first).setChild segment second = node.setChild segment second := by
  cases segment with
  | key name => cases node <;> simp only [setChild, setEntry_setEntry]
  | index n => cases node <;> simp only [setChild, List.set_set]

@[simp] theorem info_setChild (node value : Node) (segment : Segment) :
    (node.setChild segment value).info = node.info := by
  cases segment <;> cases node <;> rfl

/-! Whole paths. -/

@[simp] theorem update?_nil (node : Node) (f : Node → Node) :
    node.update? [] f = some (f node) := by
  simp [update?]

theorem update?_cons (node : Node) (segment : Segment) (rest : Path) (f : Node → Node) :
    node.update? (segment :: rest) f =
      (node.child? segment).bind fun child =>
        (child.update? rest f).map (node.setChild segment) := by
  rw [update?]
  cases hchild : node.child? segment with
  | none => rfl
  | some child => cases hnew : child.update? rest f <;> simp [hnew]

theorem update?_cons_eq_some {node after : Node} {segment : Segment} {rest : Path}
    {f : Node → Node} :
    node.update? (segment :: rest) f = some after ↔
      ∃ child new, node.child? segment = some child ∧ child.update? rest f = some new ∧
        node.setChild segment new = after := by
  simp only [update?_cons, Option.bind_eq_some_iff, Option.map_eq_some_iff, exists_and_left]

theorem isSome_update? (node : Node) (path : Path) (f : Node → Node) :
    (node.update? path f).isSome = (node.at? path).isSome := by
  induction path generalizing node with
  | nil => simp
  | cons segment rest ih =>
      rw [update?_cons, at?_cons]
      cases hchild : node.child? segment with
      | none => rfl
      | some child =>
          rw [Option.bind_some, Option.bind_some, Option.isSome_map]
          exact ih child

theorem exists_at?_of_append {node after : Node} {path rest : Path} {f : Node → Node}
    (h : node.update? (path ++ rest) f = some after) :
    ∃ child new, node.at? path = some child ∧ child.update? rest f = some new ∧
      after.at? path = some new := by
  induction path generalizing node after with
  | nil => exact ⟨node, after, at?_nil node, h, at?_nil after⟩
  | cons segment tail ih =>
      rw [List.cons_append, update?_cons_eq_some] at h
      obtain ⟨next, new, hnext, hnew, rfl⟩ := h
      rw [at?_cons, at?_cons, child?_setChild_self new hnext, hnext]
      exact ih hnew

theorem at?_update?_of_append {node after : Node} {path rest : Path} {f : Node → Node}
    (h : node.update? (path ++ rest) f = some after) :
    after.at? path = (node.at? path).bind (·.update? rest f) := by
  obtain ⟨child, new, hchild, hnew, hafter⟩ := exists_at?_of_append h
  rw [hafter, hchild, Option.bind_some, hnew]

theorem at?_update? {node after : Node} {path : Path} {f : Node → Node}
    (h : node.update? path f = some after) : after.at? path = (node.at? path).map f := by
  have happend : after.at? path = (node.at? path).bind (·.update? [] f) :=
    at?_update?_of_append (by rwa [List.append_nil])
  rw [happend]
  cases node.at? path <;> simp

theorem at?_update?_of_apart {node after : Node} {path other : Path} {f : Node → Node}
    (h : node.update? path f = some after) (hpath : ¬path <+: other) (hother : ¬other <+: path) :
    after.at? other = node.at? other := by
  induction path generalizing node after other with
  | nil => exact absurd List.nil_prefix hpath
  | cons segment rest ih =>
      obtain ⟨child, new, hchild, hnew, rfl⟩ := update?_cons_eq_some.1 h
      cases other with
      | nil => exact absurd List.nil_prefix hother
      | cons segment' rest' =>
          rw [at?_cons, at?_cons]
          by_cases heq : segment' = segment
          · subst heq
            rw [child?_setChild_self new hchild, hchild]
            simp only [List.cons_prefix_cons, true_and] at hpath hother
            exact ih hnew hpath hother
          · rw [child?_setChild_of_ne heq]

theorem update?_at? {node child : Node} {path : Path} (h : node.at? path = some child) :
    node.update? path (fun _ => child) = some node := by
  induction path generalizing node with
  | nil => simpa using h.symm
  | cons segment rest ih =>
      rw [at?_cons, Option.bind_eq_some_iff] at h
      obtain ⟨next, hnext, hrest⟩ := h
      exact update?_cons_eq_some.2 ⟨next, next, hnext, ih hrest, setChild_child? hnext⟩

theorem update?_congr {node child : Node} {path : Path} {f g : Node → Node}
    (h : node.at? path = some child) (hfg : f child = g child) :
    node.update? path f = node.update? path g := by
  induction path generalizing node with
  | nil =>
      obtain rfl := Option.some.inj h
      simp [hfg]
  | cons segment rest ih =>
      rw [at?_cons, Option.bind_eq_some_iff] at h
      obtain ⟨next, hnext, hrest⟩ := h
      rw [update?_cons, update?_cons, hnext, Option.bind_some, Option.bind_some, ih hrest]

theorem update?_update? {node after : Node} {path : Path} {f g : Node → Node}
    (h : node.update? path f = some after) :
    after.update? path g = node.update? path (g ∘ f) := by
  induction path generalizing node after with
  | nil =>
      obtain rfl := Option.some.inj h
      rfl
  | cons segment rest ih =>
      obtain ⟨child, new, hchild, hnew, rfl⟩ := update?_cons_eq_some.1 h
      rw [update?_cons, update?_cons, child?_setChild_self new hchild, hchild, Option.bind_some,
        Option.bind_some, ih hnew]
      cases child.update? rest (g ∘ f) with
      | none => rfl
      | some newer => exact congrArg some (setChild_setChild node new newer segment)

theorem update?_append {node child : Node} {path rest : Path} {f : Node → Node}
    (h : node.at? path = some child) :
    node.update? (path ++ rest) f =
      (child.update? rest f).bind fun new => node.update? path fun _ => new := by
  induction path generalizing node with
  | nil =>
      obtain rfl := Option.some.inj h
      simp
  | cons segment tail ih =>
      rw [at?_cons, Option.bind_eq_some_iff] at h
      obtain ⟨next, hnext, htail⟩ := h
      rw [List.cons_append, update?_cons, hnext, Option.bind_some, ih htail]
      cases child.update? rest f with
      | none => rfl
      | some new => simp only [Option.bind_some, update?_cons, hnext]

theorem info_at?_update? {node after : Node} {path way : Path} {f : Node → Node}
    (h : node.update? path f = some after) (hway : way <+: path) (hne : way ≠ path) :
    (after.at? way).map info = (node.at? way).map info := by
  obtain ⟨rest, rfl⟩ := hway
  obtain ⟨child, new, hchild, hnew, hafter⟩ := exists_at?_of_append h
  cases rest with
  | nil => exact absurd (List.append_nil way).symm hne
  | cons segment rest =>
      obtain ⟨inner, newer, -, -, rfl⟩ := update?_cons_eq_some.1 hnew
      rw [hafter, hchild, Option.map_some, Option.map_some, info_setChild]

/-- Of a configuration nothing has changed but what a path leads to. On the way there, nodes come
from where they came from. -/
structure SameAround (path : Path) (before after : Node) : Prop where
  apart : ∀ other, ¬path <+: other → ¬other <+: path → after.at? other = before.at? other
  above : ∀ way, way <+: path → way ≠ path → (after.at? way).map info = (before.at? way).map info

theorem sameAround_update? {node after : Node} {path : Path} {f : Node → Node}
    (h : node.update? path f = some after) : SameAround path node after where
  apart _ hpath hother := at?_update?_of_apart h hpath hother
  above _ hway hne := info_at?_update? h hway hne

end RuleTidy.Yaml.Node
