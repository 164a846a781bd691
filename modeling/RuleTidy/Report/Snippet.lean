import RuleTidy.Report.Diagnostic

/-! The text of a report: a title, the source lines of every span with their numbers, the help and
the long message. -/

namespace RuleTidy.Report

open Source Text

/-- The half-open range of line indices that a snippet shows. It holds the first line of the span
and the lines of the window, as far as the text has them. -/
def lineRange (span : Span) (window : ContextWindow) (lineCount : Nat) : Nat × Nat :=
  let first := subSaturating span.start.line window.before
  let last := max (addSaturating span.stop.line window.after) (addSaturating span.start.line 1)
  (first.toNat, min last.toNat (saturate lineCount).toNat)

def padded (width n : Nat) : List Char :=
  let digits := decimal n
  List.replicate (width - digits.length) ' ' ++ digits

def numberedLine (width : Nat) (line : List Char) (number : Nat) : List Char :=
  padded width number ++ "| ".toList ++ line ++ ['\n']

/-- The numbered lines with an index from `first` up to `last`. Numbers count from one and are as
wide as the largest. -/
def numberedLines (lines : List (List Char)) (first last : Nat) : List Char :=
  (((lines.take last).drop first).zipIdx (first + 1)).flatMap fun (line, number) =>
    numberedLine (decimal last).length line number

def unknownFile : String := "<unknown>"

def location (span : Span) : List Char :=
  "  --> ".toList ++ (span.file.getD unknownFile).toList ++ ':' ::
    decimal (addSaturating span.start.line 1).toNat ++ ['\n']

def snippet (registry : Registry) (window : ContextWindow) (span : Span) : List Char :=
  match span.source.bind registry.get? with
  | none => []
  | some text =>
    let lines := lines text.toList
    let (first, last) := lineRange span window lines.length
    numberedLines lines first last

def title (d : Diagnostic) : List Char :=
  d.level.render.toList ++ ": ".toList ++ d.shortMessage.toList ++ ['\n']

def notes (d : Diagnostic) : List Char :=
  (d.help.elim [] fun help => "= help: ".toList ++ help.toList ++ ['\n']) ++
    d.longMessage.elim [] fun message => message.toList ++ ['\n']

def Diagnostic.render (registry : Registry) (window : ContextWindow) (d : Diagnostic) : String :=
  String.ofList <| title d ++
    (d.spans.flatMap fun span => location span ++ snippet registry window span) ++ notes d

end RuleTidy.Report
