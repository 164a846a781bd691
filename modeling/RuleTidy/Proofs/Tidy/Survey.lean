import RuleTidy.Proofs.Document.Run
import RuleTidy.Proofs.Rule.Violations
import RuleTidy.Proofs.Tidy.Target

/-! What becomes of each rule and of each of its lists. A rule without problems has a language, and
the paths of its lists lead to lists only, so nothing is left out without a word. -/

namespace RuleTidy

open Report Yaml

namespace Rule

theorem problems_eq_nil {rule : Rule} :
    rule.problems = [] ↔ ∀ violation, ¬Violates rule violation := by
  rw [problems_eq, List.map_eq_nil_iff, List.eq_nil_iff_forall_not_mem]
  simp only [mem_violations]

theorem exists_entries_of_problems_eq_nil {rule : Rule} (h : rule.problems = []) :
    ∃ entries, rule.node.entries? = some entries :=
  Option.ne_none_iff_exists'.1 fun hnone => problems_eq_nil.1 h _ (.notMapping hnone)

theorem exists_language_of_problems_eq_nil {rule : Rule} (h : rule.problems = []) :
    ∃ language, rule.language? = some language := by
  obtain ⟨entries, hentries⟩ := exists_entries_of_problems_eq_nil h
  rw [problems_eq_nil] at h
  obtain ⟨languages, hfound⟩ : ∃ languages, rule.node.get? "languages" = some languages :=
    Option.ne_none_iff_exists'.1 fun hnone => h _ (.noLanguages hentries hnone)
  obtain ⟨items, hitems⟩ : ∃ items, languages.items? = some items :=
    Option.ne_none_iff_exists'.1 fun hnone => h _ (.languagesNotList hfound (.inl hnone))
  cases items with
  | nil => exact absurd (.languagesNotList hfound (.inr hitems)) (h _)
  | cons first rest =>
      have hfirst : (first :: rest)[0]? = some first := rfl
      obtain ⟨language, hlanguage⟩ : ∃ language, first.text? = some language :=
        Option.ne_none_iff_exists'.1 fun hnone =>
          h _ (.languageNotString hfound hitems hfirst hnone)
      exact ⟨language, by simp [language?, Rule.languages, hfound, hitems, hlanguage]⟩

def HasLists (node : Node) : Prop :=
  ∀ (operand : Operand) (operator : String), operand.LiesIn node →
    operand.key.text? = some operator → operator ∈ listOperators →
      operand.value.items?.isSome = true

theorem hasLists_of_problems_eq_nil {rule : Rule} (h : rule.problems = []) :
    HasLists rule.node := by
  intro operand operator hlies hkey hoperator
  obtain ⟨entries, hentries⟩ := exists_entries_of_problems_eq_nil h
  rw [problems_eq_nil] at h
  exact Option.isSome_iff_ne_none.2 fun hnone =>
    h _ (.operandNotList hentries hlies hkey hoperator hnone)

theorem HasLists.item {info : Info} {items : List Node} {n : Nat} {item : Node}
    (h : HasLists (.sequence info items)) (hitem : items[n]? = some item) : HasLists item := by
  rintro operand operator ⟨way, place, info', entries, hleads, hentry, -⟩ hkey hoperator
  exact h ⟨(n :: way) ++ [place], .index n :: operand.path, operand.key, operand.value⟩ operator
    ⟨n :: way, place, info', entries, .item hitem hleads, hentry, rfl⟩ hkey hoperator

theorem HasLists.isSome_items? {info : Info} {entries : List (Node × Node)} {place : Nat}
    {key value : Node} {name : String} (h : HasLists (.mapping info entries))
    (hentry : entries[place]? = some (key, value)) (hkey : key.text? = some name)
    (hname : name ∈ listOperators) : value.items?.isSome = true :=
  h ⟨[place], [], key, value⟩ name ⟨[], place, info, entries, .here _, hentry, rfl⟩ hkey hname

theorem HasLists.operand {info : Info} {entries : List (Node × Node)} {place : Nat}
    {key value : Node} {name : String} (h : HasLists (.mapping info entries))
    (hentry : entries[place]? = some (key, value)) (hkey : key.text? = some name)
    (hname : name ∈ listOperators) : HasLists value := by
  have hlist := h.isSome_items? hentry hkey hname
  rintro operand operator ⟨way, place', info', entries', hleads, hentry', -⟩ hkey' hoperator
  exact h ⟨(place :: way) ++ [place'], .key name :: operand.path, operand.key, operand.value⟩
    operator ⟨place :: way, place', info', entries', .operand hentry hkey hname hlist hleads,
      hentry', rfl⟩ hkey' hoperator

/-- The path of a list leads through first entries, where the chain that spells it may go through
later ones. Still there is a list at its end, if there is anything. -/
theorem HasLists.exists_sequence {node found : Node} {path : Path} (h : HasLists node)
    (hpath : IsListPath path) (hat : node.at? path = some found) :
    ∃ info items, found = .sequence info items := by
  induction path generalizing node with
  | nil => exact hpath.elim
  | cons segment path ih =>
      rw [Node.at?_cons, Option.bind_eq_some_iff] at hat
      obtain ⟨child, hchild, hat⟩ := hat
      cases segment with
      | index n =>
          obtain ⟨info, items, rfl, hitem⟩ := Node.child?_index_eq_some.1 hchild
          exact ih (h.item hitem) hpath hat
      | key name =>
          obtain ⟨info, entries, rfl, hvalue⟩ := Node.child?_key_eq_some.1 hchild
          obtain ⟨⟨key, value⟩, hfind, rfl⟩ := Option.map_eq_some_iff.1 hvalue
          have hkey : key.text? = some name := by simpa using List.find?_some hfind
          obtain ⟨place, hentry⟩ := List.mem_iff_getElem?.1 (List.mem_of_find?_eq_some hfind)
          cases path with
          | nil =>
              obtain rfl := Option.some.inj hat
              have hlist := h.isSome_items? hentry hkey hpath.key_mem
              cases value with
              | scalar info' old => cases hlist
              | mapping info' old => cases hlist
              | sequence info' items => exact ⟨info', items, rfl⟩
          | cons next path =>
              cases next with
              | key other => exact hpath.elim
              | index n => exact ih (h.operand hentry hkey hpath.key_mem) hpath.2 hat

theorem exists_sequence_of_mem_alternatives {root found : Node} {rule : Rule} {path : Path}
    (hrule : root.at? rule.path = some rule.node) (h : rule.problems = [])
    (hpath : path ∈ rule.alternatives) (hat : root.at? path = some found) :
    ∃ info items, found = .sequence info items := by
  obtain ⟨rest, hrest, rfl⟩ := mem_alternatives.1 hpath
  rw [Node.at?_append, hrule, Option.bind_some] at hat
  exact (hasLists_of_problems_eq_nil h).exists_sequence (isListPath_of_mem hrest) hat

end Rule

namespace Tidy

structure Share where
  targets : List Target
  skipped : List Diagnostic

namespace Share

def join (shares : List Share) : Share :=
  ⟨shares.flatMap (·.targets), shares.flatMap (·.skipped)⟩

def ofFindings (findings : List (Diagnostic ⊕ Target)) : Share :=
  ⟨findings.filterMap (·.getRight?), findings.filterMap (·.getLeft?)⟩

theorem ofFindings_flatMap {α : Type} (xs : List α) (f : α → List (Diagnostic ⊕ Target)) :
    ofFindings (xs.flatMap f) = join (xs.map fun x => ofFindings (f x)) := by
  simp only [ofFindings, join, List.filterMap_flatMap, List.flatMap_map]

end Share

/-- What a list of alternatives comes to. It is a target, unless it is in brackets. Then it is
reported with its path. -/
inductive ListShare (root : Node) (language : String) (path : Path) : Share → Prop
  | target (no_flow : ∀ list, root.at? path = some list → list.layout ≠ .flow) :
      ListShare root language path ⟨[⟨language, path⟩], []⟩
  | notice {info : Info} {items : List Node} (at_path : root.at? path = some (.sequence info items))
      (in_brackets : info.layout = .flow) :
      ListShare root language path ⟨[], [{
        level := .warning
        shortMessage := s!"`{path.render}` is written in flow style and was not rewritten"
        spans := [info.span]
        help := some "write the alternatives as a block list to enable autofix" }]⟩

/-- What a rule comes to. It is its problems, or if it has none, what its lists come to. -/
inductive RuleShare (root : Node) (rule : Rule) : Share → Prop
  | refused (wrong : rule.problems ≠ []) : RuleShare root rule ⟨[], rule.problems⟩
  | surveyed {language : String} {shares : List Share} (sound : rule.problems = [])
      (spoken : rule.language? = some language)
      (lists : List.Forall₂ (ListShare root language) rule.alternatives shares) :
      RuleShare root rule (.join shares)

theorem listShare_targetOrNotice {root : Node} {path : Path} (language : String)
    (h : ∀ found, root.at? path = some found → ∃ info items, found = .sequence info items) :
    ListShare root language path (.ofFindings [targetOrNotice root language path]) := by
  unfold targetOrNotice
  cases hat : root.at? path with
  | none => exact .target fun list hlist => by rw [hat] at hlist; cases hlist
  | some found =>
      obtain ⟨info, items, rfl⟩ := h found hat
      by_cases hflow : (Node.sequence info items).layout = .flow
      · rw [Option.filter_some, if_pos (decide_eq_true hflow)]
        exact .notice hat hflow
      · rw [Option.filter_some, if_neg (by simpa using hflow)]
        refine .target fun list hlist => ?_
        rw [hat] at hlist
        obtain rfl := Option.some.inj hlist
        exact hflow

theorem ruleShare_ofRule {root : Node} {rule : Rule}
    (hrule : root.at? rule.path = some rule.node) :
    RuleShare root rule (.ofFindings (ofRule root rule)) := by
  cases hproblems : rule.problems with
  | cons problem problems =>
      have hrefused : Share.ofFindings (ofRule root rule) = ⟨[], rule.problems⟩ := by
        simp [Share.ofFindings, ofRule, hproblems, List.filterMap_map, Function.comp_def]
      rw [hrefused]
      exact .refused (by simp [hproblems])
  | nil =>
      obtain ⟨language, hlanguage⟩ := Rule.exists_language_of_problems_eq_nil hproblems
      have hfindings : ofRule root rule =
          rule.alternatives.flatMap fun path => [targetOrNotice root language path] := by
        simp only [ofRule, hproblems, hlanguage, List.map_eq_flatMap]
      rw [hfindings, Share.ofFindings_flatMap]
      refine .surveyed hproblems hlanguage ?_
      rw [List.forall₂_map_right_iff, List.forall₂_same]
      exact fun path hpath => listShare_targetOrNotice language fun found hat =>
        Rule.exists_sequence_of_mem_alternatives hrule hproblems hpath hat

/-- What is tidied in a file and what is reported as left alone is what its rules come to, one after
the other. -/
theorem survey_of_rules {root : Node} {items : List Node}
    (h : (root.get? "rules").bind (·.items?) = some items) :
    ∃ shares : List Share,
      List.Forall₂ (RuleShare root) (items.zipIdx.map fun (node, index) => ⟨index, node⟩) shares ∧
      Share.mk (targets root) (skipped root) = .join shares := by
  have hall := Rule.all_eq_ok.2 ⟨items, h, rfl⟩
  refine ⟨(items.zipIdx.map fun (node, index) => ⟨index, node⟩).map fun rule =>
    .ofFindings (ofRule root rule), ?_, ?_⟩
  · rw [List.forall₂_map_right_iff, List.forall₂_same]
    exact fun rule hrule => ruleShare_ofRule ((Rule.mem_all hall).1 hrule)
  · rw [targets, skipped, survey, hall]
    exact Share.ofFindings_flatMap _ (ofRule root)

def mixedRules : String :=
  "rules:\n- id: a\n  pattern: 1\n- languages: [python]\n  pattern-either:\n  - pattern: x\n" ++
    "  - pattern-either: [pattern: y]\n"

/-- The first rule has two problems. Of the lists of the second one, the inner one is reported and
the outer one is tidied. -/
theorem survey_of_rules_mixedRules :
    ∃ d registry' items shares, Document.parse .empty mixedRules none = (.ok d, registry') ∧
      (d.root.get? "rules").bind (·.items?) = some items ∧
      List.Forall₂ (RuleShare d.root) (items.zipIdx.map fun (node, index) => ⟨index, node⟩) shares ∧
      Share.mk (targets d.root) (skipped d.root) = .join shares ∧ shares.length = 2 ∧
      targets d.root = [⟨"python", [.key "rules", .index 1, .key "pattern-either"]⟩] ∧
      (skipped d.root).map (·.shortMessage) =
        ["rule `a`: rule has no `languages`", "rule `a`: `pattern` must be a string",
          "`rules[1].pattern-either[1].pattern-either` is written in flow style and was not rewritten"]
      := by
  have hrun : ((Document.parse .empty mixedRules none).1.toOption.bind fun d =>
      ((d.root.get? "rules").bind (·.items?)).map fun items =>
        (items.length, targets d.root, (skipped d.root).map (·.shortMessage))) =
      some (2, [⟨"python", [.key "rules", .index 1, .key "pattern-either"]⟩],
        ["rule `a`: rule has no `languages`", "rule `a`: `pattern` must be a string",
          "`rules[1].pattern-either[1].pattern-either` is written in flow style and was not rewritten"])
      := by decide +kernel
  obtain ⟨d, registry', hparse, hrun⟩ := Document.exists_parse_of_bind hrun
  obtain ⟨items, hitems, heq⟩ := Option.map_eq_some_iff.1 hrun
  simp only [Prod.mk.injEq] at heq
  obtain ⟨htwo, htargets, hskipped⟩ := heq
  obtain ⟨shares, hshares, hjoin⟩ := survey_of_rules hitems
  have hlength : shares.length = 2 := by
    rw [← hshares.length_eq, List.length_map, List.length_zipIdx, htwo]
  exact ⟨d, registry', items, shares, hparse, hitems, hshares, hjoin, hlength, htargets, hskipped⟩

end Tidy

end RuleTidy
