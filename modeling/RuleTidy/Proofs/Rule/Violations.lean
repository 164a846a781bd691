import RuleTidy.Proofs.Rule.Worklist

/-! What can be wrong with a rule, and that all of it is reported. Each violation is at one node and
has one message, and the problems of a rule are the messages of its violations. -/

namespace RuleTidy.Rule

open Report Yaml

/-- Something that is wrong with a rule. Languages and operands are told by where they stand, since
two of them may look alike. -/
inductive Violation where
  | notMapping
  | noLanguages
  | languagesNotList (languages : Node)
  | languageNotString (index : Nat) (language : Node)
  | operandNotString (operator : String) (operand : Operand)
  | operandNotList (operator : String) (operand : Operand)

/-- What makes a rule violate the form of a rule. An operand that has to be a list and is none is at
fault itself, and nothing is asked of what is in it. -/
inductive Violates (rule : Rule) : Violation → Prop
  | notMapping (no_mapping : rule.node.entries? = none) : Violates rule .notMapping
  | noLanguages {entries : List (Node × Node)} (is_mapping : rule.node.entries? = some entries)
      (missing : rule.node.get? "languages" = none) : Violates rule .noLanguages
  | languagesNotList {languages : Node} (found : rule.node.get? "languages" = some languages)
      (no_list : languages.items? = none ∨ languages.items? = some []) :
      Violates rule (.languagesNotList languages)
  | languageNotString {languages language : Node} {items : List Node} {index : Nat}
      (found : rule.node.get? "languages" = some languages)
      (is_list : languages.items? = some items) (at_index : items[index]? = some language)
      (no_string : language.text? = none) : Violates rule (.languageNotString index language)
  | operandNotString {entries : List (Node × Node)} {operator : String} {operand : Operand}
      (is_mapping : rule.node.entries? = some entries) (lies : operand.LiesIn rule.node)
      (named : operand.key.text? = some operator) (takes_string : operator ∈ patternOperators)
      (no_string : operand.value.text? = none) : Violates rule (.operandNotString operator operand)
  | operandNotList {entries : List (Node × Node)} {operator : String} {operand : Operand}
      (is_mapping : rule.node.entries? = some entries) (lies : operand.LiesIn rule.node)
      (named : operand.key.text? = some operator) (takes_list : operator ∈ listOperators)
      (no_list : operand.value.items? = none) : Violates rule (.operandNotList operator operand)

namespace Violation

def node (rule : Rule) : Violation → Node
  | .notMapping | .noLanguages => rule.node
  | .languagesNotList languages => languages
  | .languageNotString _ language => language
  | .operandNotString _ operand | .operandNotList _ operand => operand.value

def operand? : Violation → Option Operand
  | .operandNotString _ operand | .operandNotList _ operand => some operand
  | _ => none

def message : Violation → String
  | .notMapping => "rule is not a mapping"
  | .noLanguages => "rule has no `languages`"
  | .languagesNotList _ => "`languages` must be a non-empty list"
  | .languageNotString .. => "language must be a string"
  | .operandNotString operator _ => s!"`{operator}` must be a string"
  | .operandNotList operator _ => s!"`{operator}` must be a list"

def help : Violation → Option String
  | .noLanguages => some "add a list such as `languages: [python]`"
  | _ => none

def diagnostic (rule : Rule) (violation : Violation) : Diagnostic :=
  rule.problem (violation.node rule) violation.message violation.help

end Violation

def languageViolations (rule : Rule) : List Violation :=
  match rule.node.get? "languages" with
  | none => [.noLanguages]
  | some languages =>
    match languages.items? with
    | none | some [] => [.languagesNotList languages]
    | some items =>
      (items.zipIdx.filter (·.1.text?.isNone)).map fun (item, index) => .languageNotString index item

def operandViolation? (operand : Operand) : Option Violation :=
  operand.key.text?.bind fun operator =>
    if operator ∈ patternOperators ∧ operand.value.text? = none then
      some (.operandNotString operator operand)
    else if operator ∈ listOperators ∧ operand.value.items? = none then
      some (.operandNotList operator operand)
    else none

def violations (rule : Rule) : List Violation :=
  if rule.node.entries?.isNone then [.notMapping]
  else rule.languageViolations ++ (operands rule.node).filterMap operandViolation?

/-! Each problem is that of a violation. -/

theorem map_languageNotString (rule : Rule) (items : List Node) :
    (items.filter (·.text?.isNone)).map (rule.problem · "language must be a string") =
      ((items.zipIdx.filter (·.1.text?.isNone)).map fun (item, index) =>
        Violation.languageNotString index item).map (·.diagnostic rule) := by
  conv => lhs; rw [← List.zipIdx_map_fst 0 items]
  rw [List.filter_map, List.map_map, List.map_map]
  rfl

theorem languageProblems_eq (rule : Rule) :
    rule.languageProblems = rule.languageViolations.map (·.diagnostic rule) := by
  unfold languageProblems languageViolations
  cases rule.node.get? "languages" with
  | none => rfl
  | some languages =>
      dsimp only
      cases languages.items? with
      | none => rfl
      | some items =>
          cases items with
          | nil => rfl
          | cons item rest => exact map_languageNotString rule (item :: rest)

theorem operandProblems_eq (rule : Rule) (operand : Operand) :
    rule.operandProblems (operand.key.text?.getD "") operand.value =
      ((operandViolation? operand).map (·.diagnostic rule)).toList := by
  unfold operandProblems operandViolation?
  cases operand.key.text? with
  | none =>
      have hempty : "" ∉ patternOperators ∧ "" ∉ listOperators := by decide
      simp [hempty]
  | some operator =>
      simp only [Option.getD_some, Option.bind_some, Bool.and_eq_true, decide_eq_true_eq,
        Option.isNone_iff_eq_none]
      split
      · rfl
      · split <;> rfl

theorem entryProblems_eq (rule : Rule) (visit : Visit) :
    rule.entryProblems (visit.node.entries?.getD []) =
      (visit.operands.filterMap operandViolation?).map (·.diagnostic rule) := by
  have hentries := List.zipIdx_map_fst 0 (visit.node.entries?.getD [])
  unfold entryProblems Visit.operands
  conv => lhs; rw [← hentries]
  rw [List.flatMap_map, List.filterMap_map, List.map_filterMap, List.filterMap_eq_flatMap_toList]
  refine List.flatMap_congr fun entry _ => ?_
  exact operandProblems_eq rule ⟨visit.places ++ [entry.2], visit.path, entry.1.1, entry.1.2⟩

theorem problems_eq (rule : Rule) : rule.problems = rule.violations.map (·.diagnostic rule) := by
  unfold problems violations
  split
  · rfl
  · have hoperators : operatorProblems rule rule.node =
        ((operands rule.node).filterMap operandViolation?).map (·.diagnostic rule) := by
      rw [operatorProblems_eq, operands, List.filterMap_flatMap, List.map_flatMap]
      exact List.flatMap_congr fun visit _ => entryProblems_eq rule visit
    rw [languageProblems_eq, hoperators, List.map_append]

/-! The list of the violations is complete, and none is in it twice. -/

theorem not_mem_patternOperators {operator : String} (h : operator ∈ listOperators) :
    operator ∉ patternOperators := by
  have hall : ∀ name ∈ listOperators, name ∉ patternOperators := by decide
  exact hall operator h

theorem violations_of_mapping {rule : Rule} {entries : List (Node × Node)}
    (h : rule.node.entries? = some entries) :
    rule.violations =
      rule.languageViolations ++ (operands rule.node).filterMap operandViolation? := by
  rw [violations, h]
  rfl

theorem exists_entries_of_get? {node child : Node} {name : String}
    (h : node.get? name = some child) : ∃ entries, node.entries? = some entries := by
  cases node with
  | scalar info value => cases h
  | sequence info items => cases h
  | mapping info entries => exact ⟨entries, rfl⟩

theorem operandViolation?_eq_some {operand : Operand} {violation : Violation} :
    operandViolation? operand = some violation ↔
      ∃ operator, operand.key.text? = some operator ∧
        (operator ∈ patternOperators ∧ operand.value.text? = none ∧
            .operandNotString operator operand = violation ∨
          operator ∈ listOperators ∧ operand.value.items? = none ∧
            .operandNotList operator operand = violation) := by
  unfold operandViolation?
  rw [Option.bind_eq_some_iff]
  refine exists_congr fun operator => and_congr_right fun _ => ?_
  constructor
  · intro h
    split at h
    · next hstring => exact .inl ⟨hstring.1, hstring.2, Option.some.inj h⟩
    · split at h
      · next hlist => exact .inr ⟨hlist.1, hlist.2, Option.some.inj h⟩
      · cases h
  · rintro (⟨hstring, htext, rfl⟩ | ⟨hlist, hitems, rfl⟩)
    · rw [if_pos ⟨hstring, htext⟩]
    · rw [if_neg fun h => not_mem_patternOperators hlist h.1, if_pos ⟨hlist, hitems⟩]

theorem violates_of_mem_languageViolations {rule : Rule} {violation : Violation}
    {entries : List (Node × Node)} (is_mapping : rule.node.entries? = some entries)
    (h : violation ∈ rule.languageViolations) : Violates rule violation := by
  unfold languageViolations at h
  cases hfound : rule.node.get? "languages" with
  | none =>
      rw [hfound] at h
      obtain rfl := List.mem_singleton.1 h
      exact .noLanguages is_mapping hfound
  | some languages =>
      rw [hfound] at h
      dsimp only at h
      split at h
      · next hitems =>
          obtain rfl := List.mem_singleton.1 h
          exact .languagesNotList hfound (.inl hitems)
      · next hitems =>
          obtain rfl := List.mem_singleton.1 h
          exact .languagesNotList hfound (.inr hitems)
      · next items _ hitems =>
          obtain ⟨⟨item, index⟩, hmem, rfl⟩ := List.mem_map.1 h
          obtain ⟨hindex, htext⟩ := List.mem_filter.1 hmem
          exact .languageNotString hfound hitems (List.mem_zipIdx_iff_getElem?.1 hindex)
            (Option.isNone_iff_eq_none.1 htext)

theorem mem_violations {rule : Rule} {violation : Violation} :
    violation ∈ rule.violations ↔ Violates rule violation := by
  constructor
  · intro h
    cases hentries : rule.node.entries? with
    | none =>
        rw [violations, hentries] at h
        obtain rfl := List.mem_singleton.1 h
        exact .notMapping hentries
    | some entries =>
        rw [violations_of_mapping hentries] at h
        rcases List.mem_append.1 h with h | h
        · exact violates_of_mem_languageViolations hentries h
        · obtain ⟨operand, hmem, h⟩ := List.mem_filterMap.1 h
          have hlies := mem_operands.1 hmem
          obtain ⟨operator, hnamed, ⟨hstring, htext, rfl⟩ | ⟨hlist, hitems, rfl⟩⟩ :=
            operandViolation?_eq_some.1 h
          · exact .operandNotString hentries hlies hnamed hstring htext
          · exact .operandNotList hentries hlies hnamed hlist hitems
  · intro h
    cases h with
    | notMapping no_mapping =>
        rw [violations, no_mapping]
        exact List.mem_singleton_self _
    | noLanguages is_mapping missing =>
        rw [violations_of_mapping is_mapping, languageViolations, missing]
        exact List.mem_cons_self
    | languagesNotList found no_list =>
        obtain ⟨entries, hentries⟩ := exists_entries_of_get? found
        rw [violations_of_mapping hentries, languageViolations, found]
        rcases no_list with hitems | hitems <;> simp [hitems]
    | @languageNotString languages language items index found is_list at_index no_string =>
        obtain ⟨entries, hentries⟩ := exists_entries_of_get? found
        have hmem : (language, index) ∈ items.zipIdx.filter (·.1.text?.isNone) :=
          List.mem_filter.2 ⟨List.mem_zipIdx_iff_getElem?.2 at_index,
            Option.isNone_iff_eq_none.2 no_string⟩
        rw [violations_of_mapping hentries, languageViolations, found]
        refine List.mem_append_left _ ?_
        cases items with
        | nil => cases at_index
        | cons first rest =>
            simp only [is_list]
            exact List.mem_map.2 ⟨_, hmem, rfl⟩
    | operandNotString is_mapping lies named takes_string no_string =>
        rw [violations_of_mapping is_mapping]
        exact List.mem_append_right _ (List.mem_filterMap.2 ⟨_, mem_operands.2 lies,
          operandViolation?_eq_some.2 ⟨_, named, .inl ⟨takes_string, no_string, rfl⟩⟩⟩)
    | operandNotList is_mapping lies named takes_list no_list =>
        rw [violations_of_mapping is_mapping]
        exact List.mem_append_right _ (List.mem_filterMap.2 ⟨_, mem_operands.2 lies,
          operandViolation?_eq_some.2 ⟨_, named, .inr ⟨takes_list, no_list, rfl⟩⟩⟩)

theorem nodup_languageViolations (rule : Rule) : rule.languageViolations.Nodup := by
  unfold languageViolations
  split
  · exact List.nodup_singleton _
  · split
    · exact List.nodup_singleton _
    · exact List.nodup_singleton _
    · next items _ _ =>
        have hindices : (items.zipIdx.map Prod.snd).Nodup := by
          rw [List.zipIdx_map_snd]
          exact List.nodup_range'
        refine List.Nodup.map (fun a b h => ?_) (hindices.of_map.filter _)
        obtain ⟨hindex, hitem⟩ := Violation.languageNotString.inj h
        exact Prod.ext hitem hindex

theorem operand?_of_operandViolation? {operand : Operand} {violation : Violation}
    (h : operandViolation? operand = some violation) : violation.operand? = some operand := by
  obtain ⟨_, -, ⟨-, -, rfl⟩ | ⟨-, -, rfl⟩⟩ := operandViolation?_eq_some.1 h
  · rfl
  · rfl

theorem operand?_of_mem_languageViolations {rule : Rule} {violation : Violation}
    (h : violation ∈ rule.languageViolations) : violation.operand? = none := by
  unfold languageViolations at h
  split at h
  · rw [List.mem_singleton.1 h]
    rfl
  · split at h
    · rw [List.mem_singleton.1 h]
      rfl
    · rw [List.mem_singleton.1 h]
      rfl
    · obtain ⟨_, -, rfl⟩ := List.mem_map.1 h
      rfl

theorem nodup_violations (rule : Rule) : rule.violations.Nodup := by
  unfold violations
  split
  · exact List.nodup_singleton _
  have hoperands : ((operands rule.node).filterMap operandViolation?).Nodup :=
    List.Nodup.filterMap (fun a b violation ha hb => Option.some.inj
      ((operand?_of_operandViolation? ha).symm.trans (operand?_of_operandViolation? hb)))
      (nodup_operands rule.node).of_map
  refine (nodup_languageViolations rule).append hoperands
    (List.disjoint_left.2 fun violation hfirst hsecond => ?_)
  obtain ⟨operand, -, hviolation⟩ := List.mem_filterMap.1 hsecond
  have hnone := operand?_of_mem_languageViolations hfirst
  rw [operand?_of_operandViolation? hviolation] at hnone
  cases hnone

/-- A rule has exactly one problem for each of its violations, with the span of the node at fault and
no other. The same problems are found with a stack. -/
theorem problems_of_violations (rule : Rule) :
    rule.violations.Nodup ∧ (∀ violation, violation ∈ rule.violations ↔ Violates rule violation) ∧
      rule.problems = rule.violations.map (·.diagnostic rule) ∧ rule.check = rule.problems ∧
      ∀ violation : Violation, (violation.diagnostic rule).spans = [(violation.node rule).span] :=
  ⟨nodup_violations rule, fun _ => mem_violations, problems_eq rule, check_eq_problems rule,
    fun _ => rfl⟩

end RuleTidy.Rule
