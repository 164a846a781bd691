import RuleTidy.Proofs.Rule.Alternatives
import RuleTidy.Tidy.Target

/-! Which lists are tidied, and in which order. The order is that of the rules, and within a rule
no list comes before one inside it. -/

namespace RuleTidy

open Yaml

namespace Rule

theorem at?_path (root : Node) (index : Nat) (rest : Path) :
    root.at? (.key "rules" :: .index index :: rest) =
      (((root.get? "rules").bind (·.items?)).bind (·[index]?)).bind (·.at? rest) := by
  cases h : root.get? "rules" <;> simp [Node.child?, h]

theorem all_eq_ok {root : Node} {rules : List Rule} :
    all root = .ok rules ↔ ∃ items, (root.get? "rules").bind (·.items?) = some items ∧
      items.zipIdx.map (fun (node, index) => ⟨index, node⟩) = rules := by
  unfold all
  cases (root.get? "rules").bind (·.items?) <;> simp

theorem mem_all {root : Node} {rules : List Rule} (h : all root = .ok rules) {rule : Rule} :
    rule ∈ rules ↔ root.at? rule.path = some rule.node := by
  obtain ⟨items, hitems, rfl⟩ := all_eq_ok.1 h
  obtain ⟨index, node⟩ := rule
  rw [path, at?_path, hitems, Option.bind_some, List.mem_map]
  simp only [Node.at?_nil, Option.bind_fun_some]
  constructor
  · rintro ⟨⟨node', index'⟩, hmem, heq⟩
    obtain ⟨rfl, rfl⟩ := Rule.mk.inj heq
    exact List.mem_zipIdx_iff_getElem?.1 hmem
  · intro hnode
    exact ⟨(node, index), List.mem_zipIdx_iff_getElem?.2 hnode, rfl⟩

theorem exists_all_eq_ok {root node : Node} {index : Nat} {rest : Path}
    (h : root.at? (.key "rules" :: .index index :: rest) = some node) :
    ∃ rules, all root = .ok rules := by
  rw [at?_path] at h
  cases hitems : (root.get? "rules").bind (·.items?) with
  | none => simp [hitems] at h
  | some items => exact ⟨_, all_eq_ok.2 ⟨items, hitems, rfl⟩⟩

theorem pairwise_all {root : Node} {rules : List Rule} (h : all root = .ok rules) :
    rules.Pairwise fun a b => a.index ≠ b.index := by
  obtain ⟨items, -, rfl⟩ := all_eq_ok.1 h
  have hindices : (items.zipIdx.map Prod.snd).Nodup := by
    rw [List.zipIdx_map_snd]
    exact List.nodup_range'
  rw [List.pairwise_map]
  exact List.pairwise_map.1 hindices

end Rule

namespace Tidy

open Report

theorem getRight?_targetOrNotice {root : Node} {language : String} {path : Path} {target : Target} :
    (targetOrNotice root language path).getRight? = some target ↔
      (∀ list, root.at? path = some list → list.layout ≠ .flow) ∧ ⟨language, path⟩ = target := by
  unfold targetOrNotice
  cases hlist : root.at? path with
  | none => simp [Option.filter]
  | some list => by_cases hflow : list.layout = .flow <;> simp [Option.filter, hflow]

theorem mem_ofRule {root : Node} {rule : Rule} {target : Target} :
    target ∈ (ofRule root rule).filterMap (·.getRight?) ↔
      rule.problems = [] ∧ rule.language? = some target.language ∧
        target.path ∈ rule.alternatives ∧
        ∀ list, root.at? target.path = some list → list.layout ≠ .flow := by
  rw [List.mem_filterMap]
  unfold ofRule
  cases rule.problems with
  | cons problem problems => simp
  | nil =>
      cases rule.language? with
      | none => simp
      | some language =>
          simp only [List.mem_map, true_and, Option.some.injEq]
          constructor
          · rintro ⟨_, ⟨path, hpath, rfl⟩, h⟩
            obtain ⟨hflow, rfl⟩ := getRight?_targetOrNotice.1 h
            exact ⟨rfl, hpath, hflow⟩
          · rintro ⟨rfl, hpath, hflow⟩
            exact ⟨_, ⟨_, hpath, rfl⟩, getRight?_targetOrNotice.2 ⟨hflow, rfl⟩⟩

theorem targets_eq {root : Node} {rules : List Rule} (h : Rule.all root = .ok rules) :
    targets root = rules.flatMap fun rule => (ofRule root rule).filterMap (·.getRight?) := by
  rw [targets, survey, h]
  exact List.filterMap_flatMap

theorem mem_targets {root : Node} {target : Target} :
    target ∈ targets root ↔
      ∃ rule : Rule, root.at? rule.path = some rule.node ∧ rule.problems = [] ∧
        rule.language? = some target.language ∧ target.path ∈ rule.alternatives ∧
        ∀ list, root.at? target.path = some list → list.layout ≠ .flow := by
  cases h : Rule.all root with
  | ok rules => simp only [targets_eq h, List.mem_flatMap, mem_ofRule, Rule.mem_all h]
  | error problem =>
      have hnone : targets root = [] := by rw [targets, survey, h]; rfl
      rw [hnone]
      simp only [List.not_mem_nil, false_iff]
      rintro ⟨rule, hrule, -⟩
      obtain ⟨rules, hrules⟩ := Rule.exists_all_eq_ok hrule
      rw [h] at hrules
      cases hrules

/-- No target comes before one inside it. -/
theorem pairwise_targets (root : Node) :
    (targets root).Pairwise fun a b => a.path <+: b.path → a.path = b.path := by
  cases h : Rule.all root with
  | error problem =>
      have hnone : targets root = [] := by rw [targets, survey, h]; rfl
      rw [hnone]
      exact List.Pairwise.nil
  | ok rules =>
      rw [targets_eq h, List.pairwise_flatMap]
      constructor
      · intro rule _
        rw [List.pairwise_filterMap]
        unfold ofRule
        cases rule.problems with
        | cons problem problems =>
            rw [List.pairwise_map]
            exact List.pairwise_of_forall fun _ _ target htarget => by cases htarget
        | nil =>
            cases rule.language? with
            | none => exact List.Pairwise.nil
            | some language =>
                rw [List.pairwise_map]
                refine (Rule.pairwise_alternatives rule).imp fun {p q} hpq a ha b hb => ?_
                obtain ⟨-, rfl⟩ := getRight?_targetOrNotice.1 ha
                obtain ⟨-, rfl⟩ := getRight?_targetOrNotice.1 hb
                exact hpq
      · refine (Rule.pairwise_all h).imp fun {r s} hne a ha b hb hprefix => ?_
        obtain ⟨-, -, ha, -⟩ := mem_ofRule.1 ha
        obtain ⟨-, -, hb, -⟩ := mem_ofRule.1 hb
        obtain ⟨p, -, hp⟩ := Rule.mem_alternatives.1 ha
        obtain ⟨q, -, hq⟩ := Rule.mem_alternatives.1 hb
        rw [← hp, ← hq] at hprefix
        simp only [Rule.path, List.cons_append, List.cons_prefix_cons, Segment.index.injEq,
          true_and] at hprefix
        exact absurd hprefix.1 hne

def Active (root : Node) (index : Nat) (language : String) : Prop :=
  ∃ node, root.at? [.key "rules", .index index] = some node ∧
    (Rule.mk index node).problems = [] ∧ (Rule.mk index node).language? = some language

theorem Active.language_eq {root : Node} {index : Nat} {language language' : String}
    (h : Active root index language) (h' : Active root index language') :
    language = language' := by
  obtain ⟨node, hnode, -, hlanguage⟩ := h
  obtain ⟨node', hnode', -, hlanguage'⟩ := h'
  rw [hnode] at hnode'
  obtain rfl := Option.some.inj hnode'
  rw [hlanguage] at hlanguage'
  exact Option.some.inj hlanguage'

/-- Where the lists of alternatives of a file can stand, whether or not there is one. -/
def Place (root : Node) (target : Target) : Prop :=
  ∃ index rest, Active root index target.language ∧ Rule.IsListPath rest ∧
    target.path = .key "rules" :: .index index :: rest

theorem Place.eq_of_path_eq {root : Node} {a b : Target} (ha : Place root a) (hb : Place root b)
    (h : a.path = b.path) : a = b := by
  obtain ⟨language, path⟩ := a
  obtain ⟨language', path'⟩ := b
  obtain rfl : path = path' := h
  obtain ⟨index, rest, hactive, -, rfl⟩ := ha
  obtain ⟨index', rest', hactive', -, hpath⟩ := hb
  obtain ⟨rfl, rfl⟩ : index = index' ∧ rest = rest' := by simpa using hpath
  obtain rfl : language = language' := hactive.language_eq hactive'
  rfl

theorem place_of_mem_targets {root : Node} {target : Target} (h : target ∈ targets root) :
    Place root target := by
  obtain ⟨rule, hrule, hproblems, hlanguage, hpath, -⟩ := mem_targets.1 h
  obtain ⟨rest, hrest, heq⟩ := Rule.mem_alternatives.1 hpath
  exact ⟨rule.index, rest, ⟨rule.node, hrule, hproblems, hlanguage⟩, Rule.isListPath_of_mem hrest,
    heq.symm⟩

theorem mem_targets_of_place {root : Node} {target : Target} {info : Info} {items : List Node}
    (hplace : Place root target) (hlist : root.at? target.path = some (.sequence info items))
    (hflow : info.layout ≠ .flow) : target ∈ targets root := by
  obtain ⟨index, rest, ⟨node, hnode, hproblems, hlanguage⟩, hrest, hpath⟩ := hplace
  have hbelow : node.at? rest = some (.sequence info items) := by
    have happend := Node.at?_append root [.key "rules", .index index] rest
    rw [hnode, Option.bind_some] at happend
    rw [← happend, ← hlist, hpath]
    rfl
  refine mem_targets.2 ⟨⟨index, node⟩, hnode, hproblems, hlanguage, ?_, fun list hat => ?_⟩
  · exact Rule.mem_alternatives.2 ⟨rest, Rule.mem_alternativesBelow hrest hbelow, hpath.symm⟩
  · rw [hlist] at hat
    obtain rfl := Option.some.inj hat
    exact hflow

end Tidy

end RuleTidy
