import RuleTidy.Proofs.Document.Provenance
import RuleTidy.Proofs.Tidy.Conflict
import RuleTidy.Proofs.Yaml.Node.ReadFrom

/-! What the messages about a rule file show. A document only names the text it was read from, edited
or not, and so does everything that is said about it. -/

namespace RuleTidy

open Document Pattern Report Source Yaml

variable {digest : Digest}

theorem namesOnly_of_spans {node : Node} {d : Diagnostic} (h : node.ReadFrom digest)
    (hspans : d.spans = [node.span]) : d.NamesOnly digest := by
  intro span hspan named hnamed
  rw [hspans] at hspan
  obtain rfl := List.mem_singleton.1 hspan
  rw [h.source_eq] at hnamed
  exact (Option.some.inj hnamed).symm

/-! Reading. -/

namespace Document

variable {registry : Registry} {text : String} {file : Option String}

theorem readFrom_parse {d : Document} (h : (Document.parse registry text file).1 = .ok d) :
    d.root.ReadFrom (Digest.of text) := by
  let source : SourceText := ⟨⟨file, Digest.of text⟩, text.toList⟩
  obtain ⟨root, hroot, rfl⟩ := map_eq_ok.1 h
  exact @SourceText.readFrom_parse source root hroot

theorem namesOnly_parse {e : ParseError} (h : (Document.parse registry text file).1 = .error e) :
    e.toDiagnostic.NamesOnly (Digest.of text) := by
  let source : SourceText := ⟨⟨file, Digest.of text⟩, text.toList⟩
  exact @SourceText.namesOnly_parse source e (map_eq_error.1 h)

end Document

/-! What is left alone. -/

namespace Rule

variable (rule : Rule)

theorem namesOnly_problem {node : Node} (h : node.ReadFrom digest) (message : String)
    (help : Option String) : (rule.problem node message help).NamesOnly digest :=
  namesOnly_of_spans h rfl

theorem namesOnly_languageProblems (h : rule.node.ReadFrom digest) :
    ∀ d ∈ rule.languageProblems, d.NamesOnly digest := by
  unfold languageProblems
  cases hlanguages : rule.node.get? "languages" with
  | none => exact List.forall_mem_singleton.2 (rule.namesOnly_problem h _ _)
  | some node =>
      have hnode := h.of_get? hlanguages
      dsimp only
      split
      · exact List.forall_mem_singleton.2 (rule.namesOnly_problem hnode _ _)
      · exact List.forall_mem_singleton.2 (rule.namesOnly_problem hnode _ _)
      · next items _ hitems =>
          refine List.forall_mem_map.2 fun item hitem => ?_
          exact rule.namesOnly_problem (hnode.of_items? hitems item (List.mem_filter.1 hitem).1) _ _

theorem namesOnly_operandProblems {operand : Node} (h : operand.ReadFrom digest)
    (operator : String) : ∀ d ∈ rule.operandProblems operator operand, d.NamesOnly digest := by
  unfold operandProblems
  split
  · exact List.forall_mem_singleton.2 (rule.namesOnly_problem h _ _)
  split
  · exact List.forall_mem_singleton.2 (rule.namesOnly_problem h _ _)
  · exact fun d hd => nomatch hd

theorem namesOnly_entryProblems {entries : List (Node × Node)}
    (h : ∀ entry ∈ entries, entry.2.ReadFrom digest) :
    ∀ d ∈ rule.entryProblems entries, d.NamesOnly digest := by
  intro d hd
  obtain ⟨entry, hentry, hd⟩ := List.mem_flatMap.1 hd
  exact rule.namesOnly_operandProblems (h entry hentry) _ d hd

mutual

theorem namesOnly_operatorProblems (node : Node) (h : node.ReadFrom digest) :
    ∀ d ∈ operatorProblems rule node, d.NamesOnly digest := by
  match node, h with
  | .scalar info value, _ => exact fun d hd => nomatch hd
  | .sequence info items, .sequence source below => exact namesOnly_itemProblems items below
  | .mapping info entries, .mapping source keys values =>
      intro d hd
      rcases List.mem_append.1 hd with hd | hd
      · exact rule.namesOnly_entryProblems values d hd
      · exact namesOnly_listProblems entries values d hd

theorem namesOnly_itemProblems (items : List Node) (h : ∀ item ∈ items, item.ReadFrom digest) :
    ∀ d ∈ itemProblems rule items, d.NamesOnly digest := by
  match items, h with
  | [], _ => exact fun d hd => nomatch hd
  | item :: rest, h =>
      obtain ⟨hitem, hrest⟩ := List.forall_mem_cons.1 h
      intro d hd
      rcases List.mem_append.1 hd with hd | hd
      · exact namesOnly_itemProblems rest hrest d hd
      · exact namesOnly_operatorProblems item hitem d hd

theorem namesOnly_listProblems (entries : List (Node × Node))
    (h : ∀ entry ∈ entries, entry.2.ReadFrom digest) :
    ∀ d ∈ listProblems rule entries, d.NamesOnly digest := by
  match entries, h with
  | [], _ => exact fun d hd => nomatch hd
  | (key, value) :: rest, h =>
      obtain ⟨hvalue, hrest⟩ := List.forall_mem_cons.1 h
      intro d hd
      rcases List.mem_append.1 hd with hd | hd
      · exact namesOnly_listProblems rest hrest d hd
      · split at hd
        · exact namesOnly_operatorProblems value hvalue d hd
        · cases hd

end

theorem namesOnly_problems (h : rule.node.ReadFrom digest) :
    ∀ d ∈ rule.problems, d.NamesOnly digest := by
  unfold problems
  split
  · exact List.forall_mem_singleton.2 (rule.namesOnly_problem h _ _)
  · intro d hd
    rcases List.mem_append.1 hd with hd | hd
    · exact rule.namesOnly_languageProblems h d hd
    · exact rule.namesOnly_operatorProblems rule.node h d hd

end Rule

namespace Tidy

variable {asts : AstSource Id} {root : Node} {maxPasses : Nat}

theorem namesOnly_targetOrNotice (h : root.ReadFrom digest) {language : String} {path : Path}
    {d : Diagnostic} (hd : targetOrNotice root language path = .inl d) : d.NamesOnly digest := by
  unfold targetOrNotice at hd
  split at hd
  · next list hlist =>
      obtain rfl := Sum.inl.inj hd
      exact namesOnly_of_spans (h.of_at? (Option.filter_eq_some_iff.1 hlist).1) rfl
  · cases hd

theorem namesOnly_ofRule (h : root.ReadFrom digest) {rule : Rule} (hrule : rule.node.ReadFrom digest)
    {d : Diagnostic} (hd : .inl d ∈ ofRule root rule) : d.NamesOnly digest := by
  have hproblems := rule.namesOnly_problems hrule
  unfold ofRule at hd
  split at hd
  · split at hd
    · obtain ⟨path, -, hpath⟩ := List.mem_map.1 hd
      exact namesOnly_targetOrNotice h hpath
    · cases hd
  · obtain ⟨d', hmem, heq⟩ := List.mem_map.1 hd
    exact Sum.inl.inj heq ▸ hproblems d' hmem

theorem namesOnly_skipped (h : root.ReadFrom digest) : ∀ d ∈ skipped root, d.NamesOnly digest := by
  intro d hd
  obtain ⟨found, hfound, hleft⟩ := List.mem_filterMap.1 hd
  obtain rfl := Sum.getLeft?_eq_some_iff.1 hleft
  unfold survey at hfound
  cases hrules : Rule.all root with
  | error missing =>
      rw [hrules] at hfound
      obtain rfl := Sum.inl.inj (List.mem_singleton.1 hfound)
      unfold Rule.all at hrules
      split at hrules
      · obtain rfl := Except.error.inj hrules
        exact namesOnly_of_spans h rfl
      · cases hrules
  | ok rules =>
      rw [hrules] at hfound
      obtain ⟨rule, hrule, hfound⟩ := List.mem_flatMap.1 hfound
      exact namesOnly_ofRule h (h.of_at? ((Rule.mem_all hrules).1 hrule)) hfound

/-! Errors. -/

theorem readFrom_perform {d after : Document} {change : Change} (h : d.root.ReadFrom digest)
    (hafter : d.perform change = .ok after) : after.root.ReadFrom digest :=
  Node.readFrom_iff_labelled.2 (labelled_perform (Node.readFrom_iff_labelled.1 h) hafter)

theorem readFrom_foldlM_perform {d after : Document} {changes : List Change}
    (h : d.root.ReadFrom digest) (hafter : changes.foldlM perform d = .ok after) :
    after.root.ReadFrom digest := by
  induction changes generalizing d with
  | nil => exact pure_eq_ok.1 hafter ▸ h
  | cons change rest ih =>
      obtain ⟨next, hnext, hafter⟩ := bind_eq_ok.1 hafter
      exact ih (readFrom_perform h hnext) hafter

theorem namesOnly_error {d : Document} {e : Error} (h : d.root.ReadFrom digest)
    (he : (fixDocument asts maxPasses d).run.run = .error e) : e.toDiagnostic.NamesOnly digest := by
  rcases fixDocument_eq_error he with ⟨l, rfl⟩ | ⟨refusal, rfl⟩ |
    ⟨target, n, p, pair, hreaches, -, ⟨kept, dropped, hclash, rfl⟩ | ⟨-, rfl⟩⟩
  · exact fun span hspan => nomatch hspan
  · exact fun span hspan => nomatch hspan
  · obtain ⟨changes, hchanges⟩ := hreaches.exists_changes
    have hroot := readFrom_foldlM_perform h hchanges
    exact namesOnly_of_spans (hroot.of_at? hclash.2.1) rfl
  · obtain ⟨changes, hchanges⟩ := hreaches.exists_changes
    have hroot := readFrom_foldlM_perform h hchanges
    cases hlist : p.document.root.at? target.path with
    | none => exact fun span hspan => nomatch hspan
    | some list => exact namesOnly_of_spans (hroot.of_at? hlist) rfl

end Tidy

end RuleTidy
