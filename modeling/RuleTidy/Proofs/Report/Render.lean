import Mathlib.Data.List.Basic
import RuleTidy.Report.Snippet

/-! What the report of a diagnostic depends on. It shows the lines of the texts that its spans name,
and no other entry of the registry counts. -/

namespace RuleTidy.Report

open Source

/-- No span names another text than the one with a digest. -/
def Diagnostic.NamesOnly (digest : Digest) (d : Diagnostic) : Prop :=
  ∀ span ∈ d.spans, ∀ named ∈ span.source, named = digest

theorem snippet_congr {registry other : Registry} {span : Span}
    (h : ∀ named ∈ span.source, registry.get? named = other.get? named) (window : ContextWindow) :
    snippet registry window span = snippet other window span := by
  unfold snippet
  cases hsource : span.source with
  | none => rfl
  | some named => rw [Option.bind_some, Option.bind_some, h named hsource]

theorem Diagnostic.NamesOnly.render_congr {digest : Digest} {d : Diagnostic}
    (h : d.NamesOnly digest) {registry other : Registry}
    (hsame : registry.get? digest = other.get? digest) (window : ContextWindow) :
    d.render registry window = d.render other window := by
  have hspans : (d.spans.flatMap fun span => location span ++ snippet registry window span) =
      d.spans.flatMap fun span => location span ++ snippet other window span := by
    refine List.flatMap_congr fun span hspan => ?_
    have hnames : ∀ named ∈ span.source, registry.get? named = other.get? named :=
      fun named hnamed => by rw [h span hspan named hnamed, hsame]
    rw [snippet_congr hnames]
  rw [Diagnostic.render, Diagnostic.render, hspans]

end RuleTidy.Report
