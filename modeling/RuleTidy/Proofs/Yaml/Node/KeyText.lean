import RuleTidy.Proofs.Chain
import RuleTidy.Proofs.Json.Value
import RuleTidy.Proofs.Yaml.Node.Unroll
import RuleTidy.Yaml.Parse

/-! Equal configurations have equal values if their keys have the same texts. Marks make no difference
to the text of a key, but the sign of a zero does, for which equality has no regard. -/

namespace RuleTidy

namespace Json

variable {name : String} {value other : Json} {as bs acc others : List (String × Json)}

theorem beqEntries_insertEntry (h : (value == other) = true) (hentries : beqEntries as bs = true) :
    beqEntries (insertEntry name value as) (insertEntry name other bs) = true := by
  induction as generalizing bs with
  | nil =>
      cases bs with
      | cons b bs => exact absurd hentries Bool.false_ne_true
      | nil =>
          rw [insertEntry, insertEntry, beqEntries, beqEntries, beq_self_eq_true, Bool.and_true]
          exact h
  | cons a as ih =>
      cases bs with
      | nil => exact absurd hentries Bool.false_ne_true
      | cons b bs =>
          obtain ⟨key, stored⟩ := a
          obtain ⟨key', stored'⟩ := b
          simp only [beqEntries, Bool.and_eq_true, beq_iff_eq] at hentries
          obtain ⟨⟨rfl, hstored⟩, hrest⟩ := hentries
          simp only [insertEntry]
          split
          · simp only [beqEntries, Bool.and_eq_true, beq_self_eq_true, true_and]
            exact ⟨h, hrest⟩
          · split
            · simp only [beqEntries, Bool.and_eq_true, beq_self_eq_true, true_and]
              exact ⟨h, hstored, hrest⟩
            · simp only [beqEntries, Bool.and_eq_true, beq_self_eq_true, true_and]
              exact ⟨hstored, ih hrest⟩

theorem beqEntries_foldl (h : beqEntries as bs = true) (hacc : beqEntries acc others = true) :
    beqEntries (as.foldl (fun acc (name, value) => insertEntry name value acc) acc)
      (bs.foldl (fun acc (name, value) => insertEntry name value acc) others) = true := by
  induction as generalizing bs acc others with
  | nil =>
      cases bs with
      | cons b bs => exact absurd h Bool.false_ne_true
      | nil => exact hacc
  | cons a as ih =>
      cases bs with
      | nil => exact absurd h Bool.false_ne_true
      | cons b bs =>
          obtain ⟨key, stored⟩ := a
          obtain ⟨key', stored'⟩ := b
          simp only [beqEntries, Bool.and_eq_true, beq_iff_eq] at h
          obtain ⟨⟨rfl, hstored⟩, hrest⟩ := h
          rw [List.foldl_cons, List.foldl_cons]
          exact ih hrest (beqEntries_insertEntry hstored hacc)

end Json

namespace Yaml.Node

open Source

section Marks

variable (info : Info)

theorem keyText_marked_of_toJson {key : Node} (h : (key.marked info).toJson = key.toJson) :
    (key.marked info).keyText = key.keyText := by
  cases key with
  | scalar own value => rfl
  | sequence own items =>
      rw [keyText_eq_nameBy, keyText_eq_nameBy, marked, relabel, nameBy, nameBy, ← relabel]
      exact congrArg (fun json => String.ofList json.compact) h
  | mapping own entries =>
      rw [keyText_eq_nameBy, keyText_eq_nameBy, marked, relabel, nameBy, nameBy, ← relabel]
      exact congrArg (fun json => String.ofList json.compact) h

theorem toJson_marked (node : Node) : (node.marked info).toJson = node.toJson := by
  unfold marked
  induction node using Node.induction with
  | scalar own value => rfl
  | sequence own items ih =>
      rw [relabel_sequence, toJson, toJson, itemsJson_eq_map, itemsJson_eq_map, List.map_map]
      exact congrArg _ (List.map_congr_left ih)
  | mapping own entries ih =>
      rw [relabel_mapping, toJson, toJson, entriesJson_eq_map, entriesJson_eq_map, List.map_map]
      refine congrArg _ (List.map_congr_left fun entry hentry => ?_)
      obtain ⟨hkey, hvalue⟩ := ih entry hentry
      exact Prod.ext (keyText_marked_of_toJson info hkey) hvalue

theorem keyText_marked (key : Node) : (key.marked info).keyText = key.keyText :=
  keyText_marked_of_toJson info (toJson_marked info key)

end Marks

def SameButMarks (a b : Node) : Prop :=
  a.marked ⟨.synthetic, .synthetic⟩ = b.marked ⟨.synthetic, .synthetic⟩

theorem SameButMarks.keyText_eq {a b : Node} (h : a.SameButMarks b) : a.keyText = b.keyText := by
  rw [← keyText_marked ⟨.synthetic, .synthetic⟩ a, h, keyText_marked]

/-- The keys at one place of two configurations differ in their marks at most. -/
inductive SameKeys : Node → Node → Prop
  | scalar {info other : Info} {value stored : Scalar} :
      SameKeys (.scalar info value) (.scalar other stored)
  | sequence {info other : Info} {as bs : List Node} (items : List.Forall₂ SameKeys as bs) :
      SameKeys (.sequence info as) (.sequence other bs)
  | mapping {info other : Info} {as bs : List (Node × Node)}
      (keys : List.Forall₂ (fun a b => a.1.SameButMarks b.1) as bs)
      (values : List.Forall₂ (fun a b => SameKeys a.2 b.2) as bs) :
      SameKeys (.mapping info as) (.mapping other bs)

theorem scalarJson_congr {a b : Scalar} (h : (a == b) = true) :
    (scalarJson a == scalarJson b) = true := by
  cases a <;> cases b <;> exact h

theorem beqItems_itemsJson {as bs : List Node}
    (ih : ∀ a ∈ as, ∀ b, (a == b) = true → SameKeys a b → (a.toJson == b.toJson) = true)
    (h : beqItems as bs = true) (hkeys : List.Forall₂ SameKeys as bs) :
    Json.beqItems (itemsJson as) (itemsJson bs) = true := by
  induction hkeys with
  | nil => rfl
  | cons hitem _ ihrest =>
      obtain ⟨hfirst, hrest⟩ := Bool.and_eq_true_iff.1 h
      obtain ⟨ihfirst, ih⟩ := List.forall_mem_cons.1 ih
      exact Bool.and_eq_true_iff.2 ⟨ihfirst _ hfirst hitem, ihrest ih hrest⟩

theorem beqEntries_entriesJson {as bs : List (Node × Node)}
    (ih : ∀ a ∈ as, ∀ b, (a.2 == b) = true → SameKeys a.2 b → (a.2.toJson == b.toJson) = true)
    (h : beqEntries as bs = true)
    (hkeys : List.Forall₂ (fun a b => a.1.SameButMarks b.1) as bs)
    (hvalues : List.Forall₂ (fun a b => SameKeys a.2 b.2) as bs) :
    Json.beqEntries (entriesJson as) (entriesJson bs) = true := by
  induction hkeys with
  | nil => rfl
  | cons hkey _ ihrest =>
      obtain ⟨hfirst, hrest⟩ := Bool.and_eq_true_iff.1 h
      obtain ⟨ihfirst, ih⟩ := List.forall_mem_cons.1 ih
      obtain ⟨hvalue, hvalues⟩ := List.forall₂_cons.1 hvalues
      simp only [entriesJson, Json.beqEntries, Bool.and_eq_true, beq_iff_eq]
      exact ⟨⟨hkey.keyText_eq, ihfirst _ (Bool.and_eq_true_iff.1 hfirst).2 hvalue⟩,
        ihrest ih hrest hvalues⟩

theorem toJson_congr {a b : Node} (h : (a == b) = true) (hkeys : SameKeys a b) :
    (a.toJson == b.toJson) = true := by
  induction a using Node.induction generalizing b with
  | scalar info value =>
      cases hkeys with | scalar =>
      exact scalarJson_congr h
  | sequence info items ih =>
      cases hkeys with | sequence hitems =>
      exact beqItems_itemsJson (fun a ha b => ih a ha) h hitems
  | mapping info entries ih =>
      cases hkeys with | mapping hkeys hvalues =>
      exact Json.beqEntries_foldl (beqEntries_entriesJson (fun a ha b => (ih a ha).2) h hkeys hvalues)
        rfl

/-- Equal configurations have equal values unless a zero in a key has another sign. -/
theorem unroll_congr {a b : Node} (h : (a == b) = true) (hkeys : SameKeys a b) :
    (a.unroll == b.unroll) = true := by
  rw [unroll_eq_toJson, unroll_eq_toJson]
  exact toJson_congr h hkeys

def zeroInValue (info : Info) (negative : Bool) : Node :=
  .mapping info [(.scalar info (.number (.real (.zero true))),
      .sequence info [.scalar info (.number (.real (.zero negative)))]),
    (.sequence info [.scalar info .null], .ofString "x" info.span)]

theorem unroll_congr_zeroInValue :
    (zeroInValue ⟨.synthetic, .block⟩ false == zeroInValue ⟨.synthetic, .flow⟩ true) = true ∧
      SameKeys (zeroInValue ⟨.synthetic, .block⟩ false) (zeroInValue ⟨.synthetic, .flow⟩ true) ∧
      ((zeroInValue ⟨.synthetic, .block⟩ false).unroll ==
        (zeroInValue ⟨.synthetic, .flow⟩ true).unroll) = true := by
  have hequal : (zeroInValue ⟨.synthetic, .block⟩ false ==
      zeroInValue ⟨.synthetic, .flow⟩ true) = true := by decide
  have hkeys : SameKeys (zeroInValue ⟨.synthetic, .block⟩ false)
      (zeroInValue ⟨.synthetic, .flow⟩ true) :=
    .mapping (.cons rfl (.cons rfl .nil)) (.cons (.sequence (.cons .scalar .nil)) (.cons .scalar .nil))
  exact ⟨hequal, hkeys, unroll_congr hequal hkeys⟩

/-- The two zeros are equal keys with different texts. -/
theorem exists_unroll_ne_of_beq : ∃ a b : Node,
    (parse .empty "0.0: x\n" none).1 = .ok a ∧ (parse .empty "-0.0: x\n" none).1 = .ok b ∧
      (a == b) = true ∧ (a.unroll == b.unroll) = false := by
  have hread : ((parse .empty "0.0: x\n" none).1.toOption.bind fun a =>
      (parse .empty "-0.0: x\n" none).1.toOption.map fun b => (a == b, a.toJson == b.toJson)) =
        some (true, false) := by decide +kernel
  obtain ⟨a, ha, hread⟩ := Option.bind_eq_some_iff.1 hread
  obtain ⟨b, hb, hread⟩ := Option.map_eq_some_iff.1 hread
  obtain ⟨hequal, hvalues⟩ := Prod.mk.inj hread
  rw [← unroll_eq_toJson, ← unroll_eq_toJson] at hvalues
  exact ⟨a, b, toOption_eq_some.1 ha, toOption_eq_some.1 hb, hequal, hvalues⟩

end Yaml.Node

end RuleTidy
