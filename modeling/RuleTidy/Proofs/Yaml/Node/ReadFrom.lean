import RuleTidy.Proofs.Report.Render
import RuleTidy.Proofs.Yaml.Node.Labelled

/-! Which text the nodes of a configuration name. All nodes that are read from one text name that
text, and so do the nodes that come of them when one is changed. -/

namespace RuleTidy.Yaml

open Source

variable {digest : Digest} {node : Node}

def Info.ReadFrom (digest : Digest) (info : Info) : Prop := info.span.source = some digest

namespace Node

/-- The node and all nodes below it name the text with a digest. -/
inductive ReadFrom (digest : Digest) : Node → Prop
  | scalar {info : Info} {value : Scalar} (source : info.span.source = some digest) :
      ReadFrom digest (.scalar info value)
  | sequence {info : Info} {items : List Node} (source : info.span.source = some digest)
      (below : ∀ item ∈ items, ReadFrom digest item) : ReadFrom digest (.sequence info items)
  | mapping {info : Info} {entries : List (Node × Node)} (source : info.span.source = some digest)
      (keys : ∀ entry ∈ entries, ReadFrom digest entry.1)
      (values : ∀ entry ∈ entries, ReadFrom digest entry.2) :
      ReadFrom digest (.mapping info entries)

theorem readFrom_iff_labelled :
    node.ReadFrom digest ↔ node.Labelled (Info.ReadFrom digest) (Info.ReadFrom digest) := by
  constructor
  · intro h
    induction h with
    | scalar source => exact .scalar source
    | sequence source _ below => exact .sequence source below
    | mapping source _ _ keys values => exact .mapping source keys values
  · intro h
    induction h with
    | scalar mark => exact .scalar mark
    | sequence mark _ below => exact .sequence mark below
    | mapping mark _ _ keys values => exact .mapping mark keys values

namespace ReadFrom

theorem source_eq (h : ReadFrom digest node) : node.span.source = some digest := by
  cases h <;> assumption

theorem of_items? {items : List Node} (h : ReadFrom digest node)
    (hitems : node.items? = some items) : ∀ item ∈ items, ReadFrom digest item :=
  fun item hitem =>
    readFrom_iff_labelled.2 ((readFrom_iff_labelled.1 h).of_items? hitems item hitem)

theorem of_get? {name : String} {child : Node} (h : ReadFrom digest node)
    (hchild : node.get? name = some child) : ReadFrom digest child :=
  readFrom_iff_labelled.2 ((readFrom_iff_labelled.1 h).of_get? hchild)

theorem of_at? {path : Path} {found : Node} (h : ReadFrom digest node)
    (hfound : node.at? path = some found) : ReadFrom digest found :=
  readFrom_iff_labelled.2 ((readFrom_iff_labelled.1 h).of_at? hfound)

end ReadFrom

end Node

/-! Reading. -/

namespace SourceText

theorem labels_readFrom (source : SourceText) :
    source.Labels (Info.ReadFrom source.origin.digest) (Info.ReadFrom source.origin.digest) :=
  ⟨fun _ _ _ => rfl, fun _ _ => rfl⟩

theorem readFrom_parse {source : SourceText} {root : Node} (h : source.parse = .ok root) :
    root.ReadFrom source.origin.digest :=
  Node.readFrom_iff_labelled.2 (labelled_parse source.labels_readFrom h)

end SourceText

/-! Errors. -/

theorem namesOnly_accept {source : SourceText} {b : Builder} {event : Event} {e : ParseError}
    (h : b.accept source event = .error e) : e.toDiagnostic.NamesOnly source.origin.digest := by
  rcases Builder.accept_eq_error.1 h with ⟨-, -, rfl⟩ | ⟨n, -, -, rfl⟩
  · exact fun span hspan => nomatch hspan
  · intro span hspan named hnamed
    obtain rfl := List.mem_singleton.1 hspan
    exact (Option.some.inj hnamed).symm

theorem namesOnly_foldlM_accept {source : SourceText} {b : Builder} {events : List Event}
    {e : ParseError} (h : events.foldlM (Builder.accept source) b = .error e) :
    e.toDiagnostic.NamesOnly source.origin.digest := by
  obtain ⟨done, event, rest, held, -, -, hrefused⟩ := foldlM_eq_error.1 h
  exact namesOnly_accept hrefused

theorem SourceText.namesOnly_parse {source : SourceText} {e : ParseError}
    (h : source.parse = .error e) : e.toDiagnostic.NamesOnly source.origin.digest := by
  unfold parse at h
  rcases bind_eq_error.1 h with h | ⟨found?, -, h⟩
  · rcases bind_eq_error.1 h with h | ⟨b, -, h⟩
    · exact namesOnly_foldlM_accept h
    · cases h
  · split at h
    · obtain rfl := Except.error.inj h
      unfold ParseError.ofFailure
      split
      · exact fun span hspan => nomatch hspan
      · intro span hspan named hnamed
        obtain rfl := List.mem_singleton.1 hspan
        cases hnamed
    · cases h

end RuleTidy.Yaml
