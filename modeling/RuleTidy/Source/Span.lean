import RuleTidy.Source.Position
import RuleTidy.Source.Sha256

/-! Half-open ranges of a source text, and the places that nodes and messages come from. -/

namespace RuleTidy.Source

/-- The range from `start` up to `stop`. The file is a name for display, and the digest identifies
the text, when it is known. -/
structure Span where
  start : Position
  stop : Position
  file : Option String := none
  source : Option Digest := none
  deriving DecidableEq

namespace Span

def synthetic : Span := ⟨.origin, .origin, none, none⟩

def isSynthetic (span : Span) : Bool := span.source.isNone

def render (span : Span) : String := s!"{span.start.render}-{span.stop.render}"

end Span

structure Origin where
  file : Option String
  digest : Digest
  deriving DecidableEq

def Origin.span (origin : Origin) (text : List Char) (start stop : Nat) : Span :=
  ⟨.ofOffset text start, .ofOffset text stop, origin.file, some origin.digest⟩

end RuleTidy.Source
