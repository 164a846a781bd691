import RuleTidy.Report.Snippet

/-! Reports written piece by piece, behind what is written already. The source lines of a span are
fetched one by one, with an index of thirty-two bits. -/

namespace RuleTidy.Report

open Source Text

theorem toNat_add_one_of_lt {index last : UInt32} (h : index < last) :
    (index + 1).toNat = index.toNat + 1 := by
  have hlast := last.toNat_lt
  have hlt := UInt32.lt_iff_toNat_lt.1 h
  have hone : (1 : UInt32).toNat = 1 := rfl
  rw [UInt32.toNat_add]
  omega

/-- Writes the lines with an index from `index` up to `last`, with their numbers. Of a line that the
source does not have, nothing but the number would be written. -/
def writeLines (lines : List (List Char)) (width : Nat) (output : List Char) (index last : UInt32) :
    List Char :=
  if h : index < last then
    let line := lines[index.toNat]?.getD []
    let number := addSaturating index 1
    writeLines lines width (output ++ numberedLine width line number.toNat) (index + 1) last
  else output
termination_by last.toNat - index.toNat
decreasing_by
  have hlt := UInt32.lt_iff_toNat_lt.1 h
  rw [toNat_add_one_of_lt h]
  omega

def writeSpan (registry : Registry) (window : ContextWindow) (output : List Char) (span : Span) :
    List Char :=
  let output := output ++ location span
  match span.source.bind registry.get? with
  | none => output
  | some text =>
    let lines := lines text.toList
    let total := saturate lines.length
    let first := subSaturating span.start.line window.before
    let last :=
      min (max (addSaturating span.stop.line window.after) (addSaturating span.start.line 1)) total
    if first ≥ last then output
    else writeLines lines (decimal last.toNat).length output first last

def Diagnostic.emit (registry : Registry) (window : ContextWindow) (d : Diagnostic) : String :=
  let output := title d
  let output := d.spans.foldl (writeSpan registry window) output
  let output := match d.help with
    | some help => output ++ "= help: ".toList ++ help.toList ++ ['\n']
    | none => output
  let output := match d.longMessage with
    | some message => output ++ message.toList ++ ['\n']
    | none => output
  String.ofList output

end RuleTidy.Report
