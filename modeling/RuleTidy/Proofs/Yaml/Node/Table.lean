import Mathlib.Data.Finset.Card
import RuleTidy.Proofs.Yaml.Node.Equality

/-! Tables whose keys are nodes. Since equal nodes have one hash, whatever the hasher, an entry is
found by every node that is equal to its key, and by the value of every such node. -/

namespace RuleTidy.Yaml

def Node.equality : Setoid Node where
  r a b := (a == b) = true
  iseqv := ⟨fun _ => BEq.rfl, BEq.symm, BEq.trans⟩

instance : DecidableRel Node.equality.r := fun a b => inferInstanceAs (Decidable ((a == b) = true))

def Node.classes (nodes : List Node) : Finset (Quotient Node.equality) :=
  (nodes.map (Quotient.mk Node.equality)).toFinset

theorem Node.mem_classes {nodes : List Node} {node : Node} :
    Quotient.mk Node.equality node ∈ Node.classes nodes ↔
      ∃ other ∈ nodes, (node == other) = true := by
  rw [Node.classes, List.mem_toFinset, List.mem_map]
  exact exists_congr fun other => and_congr_right fun _ =>
    ⟨fun heq => BEq.symm (Quotient.exact heq), fun heq => Quotient.sound (BEq.symm heq)⟩

namespace Table

variable {α : Type} {table : Table α} {nodes : List Node}

def keys (table : Table α) : List Node := table.entries.map (·.2.1)

/-- What a table is once nodes were put into it. No two keys are equal, and a node is equal to a key
exactly if it is equal to one of the nodes. -/
structure Holds (table : Table α) (nodes : List Node) : Prop where
  hashed : ∀ entry ∈ table.entries, entry.1 = table.hasher entry.2.1.words
  apart : table.keys.Pairwise fun a b => (a == b) = false
  equal : ∀ node, (∃ key ∈ table.keys, (node == key) = true) ↔
    ∃ other ∈ nodes, (node == other) = true

section Store

variable {hasher : List Word → UInt64} {entries : List (UInt64 × Node × α)}

theorem same_eq {entry : UInt64 × Node × α} (h : entry.1 = hasher entry.2.1.words) (node : Node) :
    (entry.1 == hasher node.words && node == entry.2.1) = (node == entry.2.1) := by
  cases hsame : node == entry.2.1 with
  | false => exact Bool.and_false _
  | true => rw [h, Node.words_eq_of_beq hsame, beq_self_eq_true, Bool.and_true]

theorem map_key_store (h : ∀ entry ∈ entries, entry.1 = hasher entry.2.1.words) (node : Node)
    (value : α) :
    (store (hasher node.words) node value entries).map (·.2.1) =
      if entries.any (node == ·.2.1) then entries.map (·.2.1) else entries.map (·.2.1) ++ [node] := by
  induction entries with
  | nil => rfl
  | cons entry rest ih =>
      obtain ⟨hentry, hrest⟩ := List.forall_mem_cons.1 h
      unfold store
      rw [same_eq hentry, List.any_cons]
      cases hsame : node == entry.2.1 with
      | true => rfl
      | false =>
          rw [if_neg Bool.false_ne_true, List.map_cons, ih hrest, Bool.false_or, List.map_cons]
          split <;> rfl

theorem hashed_store (h : ∀ entry ∈ entries, entry.1 = hasher entry.2.1.words) (node : Node)
    (value : α) :
    ∀ entry ∈ store (hasher node.words) node value entries,
      entry.1 = hasher entry.2.1.words := by
  induction entries with
  | nil => exact List.forall_mem_singleton.2 rfl
  | cons entry rest ih =>
      obtain ⟨hentry, hrest⟩ := List.forall_mem_cons.1 h
      unfold store
      split
      · exact List.forall_mem_cons.2 ⟨hentry, hrest⟩
      · exact List.forall_mem_cons.2 ⟨hentry, ih hrest⟩

end Store

namespace Holds

theorem empty (hasher : List Word → UInt64) : Holds (α := α) { hasher } [] where
  hashed := List.forall_mem_nil _
  apart := .nil
  equal := fun _ => Iff.rfl

theorem keys_insert (h : table.Holds nodes) (node : Node) (value : α) :
    (table.insert node value).keys =
      if table.keys.any (node == ·) then table.keys else table.keys ++ [node] := by
  rw [keys, Table.insert, map_key_store h.hashed, keys, List.any_map]
  rfl

theorem insert (h : table.Holds nodes) (node : Node) (value : α) :
    (table.insert node value).Holds (nodes ++ [node]) where
  hashed := hashed_store h.hashed node value
  apart := by
    rw [h.keys_insert]
    split
    · exact h.apart
    · next hnew =>
        refine List.pairwise_append.2 ⟨h.apart, List.pairwise_singleton _ _, ?_⟩
        intro key hkey other hother
        obtain rfl := List.mem_singleton.1 hother
        cases hsame : key == other with
        | false => rfl
        | true => exact absurd (List.any_eq_true.2 ⟨key, hkey, BEq.symm hsame⟩) hnew
  equal := fun other => by
    rw [h.keys_insert]
    simp only [List.mem_append, List.mem_singleton, or_and_right, exists_or, exists_eq_left,
      ← h.equal other]
    split
    · next hold =>
        obtain ⟨key, hkey, hsame⟩ := List.any_eq_true.1 hold
        exact ⟨.inl, fun hor => hor.elim id fun hother => ⟨key, hkey, BEq.trans hother hsame⟩⟩
    · simp only [List.mem_append, List.mem_singleton, or_and_right, exists_or, exists_eq_left]

theorem ofList (hasher : List Word → UInt64) (entries : List (Node × α)) :
    (Table.ofList hasher entries).Holds (entries.map (·.1)) := by
  induction entries using List.reverseRecOn with
  | nil => exact .empty hasher
  | append_singleton entries entry ih =>
      rw [Table.ofList, List.foldl_append, List.map_append]
      exact ih.insert entry.1 entry.2

theorem isSome_get? (h : table.Holds nodes) (node : Node) :
    (table.get? node).isSome ↔ ∃ other ∈ nodes, (node == other) = true := by
  rw [← h.equal node, get?, find?, Option.isSome_map, List.find?_isSome]
  constructor
  · rintro ⟨entry, hentry, hfound⟩
    exact ⟨entry.2.1, List.mem_map_of_mem hentry, (Bool.and_eq_true_iff.1 hfound).2⟩
  · rintro ⟨key, hkey, hsame⟩
    obtain ⟨entry, hentry, rfl⟩ := List.mem_map.1 hkey
    exact ⟨entry, hentry, (same_eq (h.hashed entry hentry) node).trans hsame⟩

theorem size_eq (h : table.Holds nodes) : table.size = (Node.classes nodes).card := by
  have hnodup : (table.keys.map (Quotient.mk Node.equality)).Nodup := by
    refine List.pairwise_map.2 (h.apart.imp fun hapart heq => ?_)
    exact Bool.false_ne_true (hapart.symm.trans (Quotient.exact heq))
  have hclasses : Node.classes table.keys = Node.classes nodes := by
    ext c
    induction c using Quotient.ind with | _ node =>
    rw [Node.mem_classes, Node.mem_classes, h.equal]
  rw [← hclasses, Node.classes, List.toFinset_card_of_nodup hnodup, List.length_map, keys,
    List.length_map, size]

end Holds

theorem getByValue?_eq (table : Table α) (value : Value) :
    table.getByValue? value = table.get? value.toNode := by
  simp only [getByValue?, get?, Node.words_eq_value, Node.beq_eq_value, Value.value_toNode]

/-- Equality of nodes is an equivalence for which marks do not count, and whatever the hasher, a table
of nodes finds exactly the nodes, and the values of nodes, that are equal to one that was put in. -/
theorem isSome_get?_ofList (hasher : List Word → UInt64) :
    Equivalence (fun a b : Node => (a == b) = true) ∧
      (∀ (a b : Node) (info other : Info), (a.marked info == b.marked other) = (a == b)) ∧
      (∀ a b : Node, (a == b) = true → hasher a.words = hasher b.words) ∧
      ∀ entries : List (Node × α),
        (∀ node : Node, ((ofList hasher entries).get? node).isSome ↔
          ∃ entry ∈ entries, (entry.1 == node) = true) ∧
        (∀ value : Value, ((ofList hasher entries).getByValue? value).isSome ↔
          ∃ entry ∈ entries, (entry.1.value == value) = true) ∧
        (ofList hasher entries).size = (Node.classes (entries.map (·.1))).card := by
  have hfound : ∀ (entries : List (Node × α)) (node : Node),
      ((ofList hasher entries).get? node).isSome ↔ ∃ entry ∈ entries, (entry.1 == node) = true :=
    fun entries node => by
      rw [(Holds.ofList hasher entries).isSome_get?]
      simp [BEq.comm (a := node)]
  refine ⟨Node.equality.iseqv, fun a b info other => ?_, fun a b h => ?_, fun entries =>
    ⟨hfound entries, fun value => ?_, (Holds.ofList hasher entries).size_eq⟩⟩
  · rw [Bool.eq_iff_iff, Node.beq_iff, Node.beq_iff, Node.normal_marked, Node.normal_marked]
  · rw [Node.words_eq_of_beq h]
  · rw [getByValue?_eq, hfound]
    simp only [Node.beq_eq_value, Value.value_toNode]

/-- Both zeros are one key. A whole number and a floating-point number are two, even if all hashes are
the same. -/
example : (ofList (fun _ => 0) ([.real (.zero true), .real (.zero false), .integer 0].map fun n =>
    (.scalar ⟨.synthetic, .synthetic⟩ (.number n), ()))).size = 2 := by decide

end Table

end RuleTidy.Yaml
