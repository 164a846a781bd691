import Mathlib.Data.List.Basic
import RuleTidy.Yaml.Node.Table

/-! Equality of nodes is identity of a normal form, in which all nodes have one mark and zeros have
no sign. What a node hands to a hasher depends on the normal form alone. -/

namespace RuleTidy.Yaml

open Source

theorem number_beq_iff {a b : Number} : (a == b) = true ↔ unsignedZero a = unsignedZero b := by
  cases a with
  | integer n =>
      cases b with
      | integer m => simp [BEq.beq, Number.beq, unsignedZero]
      | real y => simp only [BEq.beq, Number.beq, unsignedZero]; split <;> simp
  | real x =>
      cases b with
      | integer m => simp only [BEq.beq, Number.beq, unsignedZero]; split <;> simp
      | real y =>
          change ((x.isZero && y.isZero) || decide (x = y)) = true ↔ _
          have hzero : (Binary64.zero false).isZero = true := rfl
          unfold unsignedZero
          by_cases hx : x.isZero = true <;> by_cases hy : y.isZero = true <;> grind

theorem unsignedZero_unsignedZero (n : Number) : unsignedZero (unsignedZero n) = unsignedZero n := by
  have hzero : (Binary64.zero false).isZero = true := rfl
  cases n with
  | integer n => rfl
  | real x => by_cases hx : x.isZero = true <;> simp [unsignedZero, hx, hzero]

namespace Scalar

def unsigned : Scalar → Scalar
  | .number n => .number (unsignedZero n)
  | value => value

theorem beq_iff {a b : Scalar} : (a == b) = true ↔ a.unsigned = b.unsigned := by
  cases a <;> cases b <;> simp [BEq.beq, Scalar.beq, unsigned]
  case number.number n m => exact number_beq_iff

theorem words_unsigned (value : Scalar) : value.unsigned.words = value.words := by
  cases value <;> simp [unsigned, words, unsignedZero_unsignedZero]

end Scalar

namespace Node

section Relabel

mutual

/-- The node with one mark for all nodes in it, and with other values for its leaves. -/
def relabel (info : Info) (f : Scalar → Scalar) : Node → Node
  | .scalar _ value => .scalar info (f value)
  | .sequence _ items => .sequence info (relabelItems info f items)
  | .mapping _ entries => .mapping info (relabelEntries info f entries)

def relabelItems (info : Info) (f : Scalar → Scalar) : List Node → List Node
  | [] => []
  | item :: rest => relabel info f item :: relabelItems info f rest

def relabelEntries (info : Info) (f : Scalar → Scalar) : List (Node × Node) → List (Node × Node)
  | [] => []
  | (key, value) :: rest =>
    (relabel info f key, relabel info f value) :: relabelEntries info f rest

end

variable (info mark : Info) (f g : Scalar → Scalar)

theorem relabelItems_eq_map (items : List Node) :
    relabelItems info f items = items.map (relabel info f) := by
  induction items with
  | nil => rfl
  | cons item rest ih => rw [relabelItems, ih, List.map_cons]

theorem relabelEntries_eq_map (entries : List (Node × Node)) :
    relabelEntries info f entries =
      entries.map fun entry => (entry.1.relabel info f, entry.2.relabel info f) := by
  induction entries with
  | nil => rfl
  | cons entry rest ih => rw [relabelEntries, ih, List.map_cons]

theorem relabel_sequence (items : List Node) :
    relabel info f (.sequence mark items) = .sequence info (items.map (relabel info f)) := by
  rw [relabel, relabelItems_eq_map]

theorem relabel_mapping (entries : List (Node × Node)) :
    relabel info f (.mapping mark entries) =
      .mapping info (entries.map fun entry => (entry.1.relabel info f, entry.2.relabel info f)) := by
  rw [relabel, relabelEntries_eq_map]

theorem relabel_relabel (node : Node) :
    (node.relabel mark g).relabel info f = node.relabel info (f ∘ g) := by
  induction node using Node.induction with
  | scalar own value => rfl
  | sequence own items ih =>
      rw [relabel_sequence, relabel_sequence, relabel_sequence, List.map_map]
      exact congrArg _ (List.map_congr_left ih)
  | mapping own entries ih =>
      rw [relabel_mapping, relabel_mapping, relabel_mapping, List.map_map]
      exact congrArg _ (List.map_congr_left fun entry hentry =>
        Prod.ext (ih entry hentry).1 (ih entry hentry).2)

end Relabel

def marked (info : Info) (node : Node) : Node := node.relabel info id

/-- The node without what does not count for equality. -/
def normal (node : Node) : Node := node.relabel ⟨.synthetic, .synthetic⟩ Scalar.unsigned

theorem normal_marked (info : Info) (node : Node) : (node.marked info).normal = node.normal :=
  relabel_relabel _ _ _ _ node

mutual

theorem beq_eq_true_iff : ∀ {a b : Node}, Node.beq a b = true ↔ a.normal = b.normal
  | .scalar _ a, .scalar _ b => by
      rw [Node.beq, Scalar.beq_iff]
      simp [normal, relabel]
  | .sequence _ as, .sequence _ bs => by
      rw [Node.beq, beqItems_eq_true_iff]
      simp [normal, relabel]
  | .mapping _ as, .mapping _ bs => by
      rw [Node.beq, beqEntries_eq_true_iff]
      simp [normal, relabel]
  | .scalar .., .sequence .. | .scalar .., .mapping .. | .sequence .., .scalar ..
  | .sequence .., .mapping .. | .mapping .., .scalar .. | .mapping .., .sequence .. => by
      simp [Node.beq, normal, relabel]

theorem beqItems_eq_true_iff : ∀ {as bs : List Node}, beqItems as bs = true ↔
    relabelItems ⟨.synthetic, .synthetic⟩ Scalar.unsigned as =
      relabelItems ⟨.synthetic, .synthetic⟩ Scalar.unsigned bs
  | [], [] => by simp [beqItems]
  | [], _ :: _ | _ :: _, [] => by simp [beqItems, relabelItems]
  | a :: as, b :: bs => by
      rw [beqItems, Bool.and_eq_true, beq_eq_true_iff, beqItems_eq_true_iff, relabelItems,
        relabelItems, List.cons.injEq]
      rfl

theorem beqEntries_eq_true_iff : ∀ {as bs : List (Node × Node)}, beqEntries as bs = true ↔
    relabelEntries ⟨.synthetic, .synthetic⟩ Scalar.unsigned as =
      relabelEntries ⟨.synthetic, .synthetic⟩ Scalar.unsigned bs
  | [], [] => by simp [beqEntries]
  | [], _ :: _ | _ :: _, [] => by simp [beqEntries, relabelEntries]
  | (k, a) :: as, (l, b) :: bs => by
      rw [beqEntries, Bool.and_eq_true, Bool.and_eq_true, beq_eq_true_iff, beq_eq_true_iff,
        beqEntries_eq_true_iff, relabelEntries, relabelEntries, List.cons.injEq, Prod.mk.injEq]
      rfl

end

theorem beq_iff {a b : Node} : (a == b) = true ↔ a.normal = b.normal := beq_eq_true_iff

instance : EquivBEq Node where
  rfl := beq_iff.2 rfl
  symm h := beq_iff.2 (beq_iff.1 h).symm
  trans hab hbc := beq_iff.2 ((beq_iff.1 hab).trans (beq_iff.1 hbc))

theorem wordsOfItems_eq_flatMap (items : List Node) :
    wordsOfItems items = items.flatMap words := by
  induction items with
  | nil => rfl
  | cons item rest ih => rw [wordsOfItems, ih, List.flatMap_cons]

theorem wordsOfEntries_eq_flatMap (entries : List (Node × Node)) :
    wordsOfEntries entries = entries.flatMap fun entry => entry.1.words ++ entry.2.words := by
  induction entries with
  | nil => rfl
  | cons entry rest ih => rw [wordsOfEntries, ih, List.flatMap_cons]

theorem words_normal (node : Node) : node.normal.words = node.words := by
  unfold normal
  induction node using Node.induction with
  | scalar info value => simp only [relabel, words, Scalar.words_unsigned]
  | sequence info items ih =>
      rw [relabel_sequence, words, words, List.length_map, wordsOfItems_eq_flatMap,
        wordsOfItems_eq_flatMap, List.flatMap_map, List.flatMap_congr ih]
  | mapping info entries ih =>
      have hwords : ∀ entry ∈ entries, _ := fun entry hentry =>
        congrArg₂ (· ++ ·) (ih entry hentry).1 (ih entry hentry).2
      rw [relabel_mapping, words, words, List.length_map, wordsOfEntries_eq_flatMap,
        wordsOfEntries_eq_flatMap, List.flatMap_map, List.flatMap_congr hwords]

theorem words_eq_of_beq {a b : Node} (h : (a == b) = true) : a.words = b.words := by
  rw [← words_normal a, beq_iff.1 h, words_normal]

end Node

section Value

theorem beqItems_eq (as bs : List Node) : Node.beqItems as bs = (as == bs) := by
  induction as generalizing bs with
  | nil => cases bs <;> rfl
  | cons a as ih =>
      cases bs with
      | nil => rfl
      | cons b bs => rw [Node.beqItems, ih]; rfl

theorem beqEntries_eq (as bs : List (Node × Node)) : Node.beqEntries as bs = (as == bs) := by
  induction as generalizing bs with
  | nil => cases bs <;> rfl
  | cons a as ih =>
      cases bs with
      | nil => rfl
      | cons b bs => rw [Node.beqEntries, ih]; rfl

theorem Node.beq_eq_value (a b : Node) : (a == b) = (a.value == b.value) := by
  cases a <;> cases b <;> try rfl
  · exact beqItems_eq _ _
  · exact beqEntries_eq _ _

theorem Node.words_eq_value (node : Node) : node.words = node.value.words := by
  cases node with
  | scalar info value => rfl
  | sequence info items => rw [words, wordsOfItems_eq_flatMap]; rfl
  | mapping info entries => rw [words, wordsOfEntries_eq_flatMap]; rfl

def Value.toNode : Value → Node
  | .scalar value => .scalar ⟨.synthetic, .synthetic⟩ value
  | .sequence items => .sequence ⟨.synthetic, .synthetic⟩ items
  | .mapping entries => .mapping ⟨.synthetic, .synthetic⟩ entries

@[simp] theorem Value.value_toNode (value : Value) : value.toNode.value = value := by
  cases value <;> rfl

end Value

end RuleTidy.Yaml
