import RuleTidy.Json.Reader.Record
import RuleTidy.Json.Text
import RuleTidy.Report.Diagnostic

/-! Diagnostics as JSON text on one line, and diagnostics read from such text. Fields are written in
a fixed order and read in any order. -/

namespace RuleTidy

/-! ### Writing -/

namespace Json

def writeList (items : List (List Char)) : List Char := '[' :: [','].intercalate items ++ [']']

def writeObject (fields : List (String × List Char)) : List Char :=
  '\x7b' :: [','].intercalate (fields.map fun (name, value) => quote name ++ ':' :: value) ++
    ['\x7d']

def writeOption {α : Type} (write : α → List Char) : Option α → List Char
  | some value => write value
  | none => "null".toList

def writeWord (n : UInt32) : List Char := Text.decimal n.toNat

end Json

open Json

def Source.Position.toJson (p : Source.Position) : List Char :=
  writeObject [("line", writeWord p.line), ("column", writeWord p.column)]

def Source.Digest.toJson (digest : Source.Digest) : List Char :=
  writeList (digest.bytes.toList.map fun byte => Text.decimal byte.toNat)

def Source.Span.toJson (span : Source.Span) : List Char :=
  writeObject [
    ("start", span.start.toJson),
    ("end", span.stop.toJson),
    ("file", writeOption quote span.file),
    ("source", writeOption Source.Digest.toJson span.source)]

namespace Report

def Level.toJson (level : Level) : List Char := quote level.render

def ContextWindow.toJson (window : ContextWindow) : List Char :=
  writeObject [("before", writeWord window.before), ("after", writeWord window.after)]

def Diagnostic.toJson (d : Diagnostic) : List Char :=
  writeObject [
    ("level", d.level.toJson),
    ("short_message", quote d.shortMessage),
    ("long_message", writeOption quote d.longMessage),
    ("spans", writeList (d.spans.map Source.Span.toJson)),
    ("help", writeOption quote d.help)]

end Report

/-! ### Reading -/

namespace Json.Reader

open Source Report

def word32 : Reader UInt32 := return UInt32.ofNat (← natural "u32" (Nat.pow 2 32))

def word8 : Reader UInt8 := return UInt8.ofNat (← natural "u8" (Nat.pow 2 8))

def wordPair (type first second : String) : Reader (UInt32 × UInt32) :=
  let expected := s!"{type} with 2 elements"
  record type
    (do return (← itemAt expected 0 word32, ← itemAt expected 1 word32))
    (do
      let (a, b) ← foldEntries (σ := Option UInt32 × Option UInt32) (fun name (a, b) => do
        if name = first then return (← field first a word32, b)
        else if name = second then return (a, ← field second b word32)
        else
          unknownField
          return (a, b)) (none, none)
      return (← required first a, ← required second b))

def position : Reader Position := do
  let (line, column) ← wordPair "struct Position" "line" "column"
  return ⟨line, column⟩

def contextWindow : Reader ContextWindow := do
  let (before, after) ← wordPair "struct ContextWindow" "before" "after"
  return ⟨before, after⟩

def digest : Reader Digest := do
  let expected := "an array of length 32"
  if (← valueStart) = '[' then
    drop 1
    let bytes ← enclosed (itemsFrom expected word8 32 0) closeList
    return ⟨Vector.ofFn fun i => bytes.getD i 0⟩
  else typeInvalid expected

def text : Reader String := string "a string"

def level : Reader Level :=
  variant ([.error, .warning, .info].map fun level : Level => (level.render, level))

structure SpanFields where
  start : Option Position := none
  stop : Option Position := none
  file : Option (Option String) := none
  source : Option (Option Digest) := none

def SpanFields.read (name : String) (s : SpanFields) : Reader SpanFields := do
  match name with
  | "start" => return { s with start := ← field name s.start position }
  | "end" => return { s with stop := ← field name s.stop position }
  | "file" => return { s with file := ← field name s.file (nullable text) }
  | "source" => return { s with source := ← field name s.source (nullable digest) }
  | _ =>
    unknownField
    return s

def span : Reader Span :=
  let expected := "struct Span with 4 elements"
  record "struct Span"
    (do return {
      start := ← itemAt expected 0 position
      stop := ← itemAt expected 1 position
      file := ← itemAt expected 2 (nullable text)
      source := ← itemAt expected 3 (nullable digest) })
    (do
      let s ← foldEntries SpanFields.read {}
      return ⟨← required "start" s.start, ← required "end" s.stop, s.file.join, s.source.join⟩)

structure DiagnosticFields where
  level : Option Level := none
  shortMessage : Option String := none
  longMessage : Option (Option String) := none
  spans : Option (List Span) := none
  help : Option (Option String) := none

def spans : Reader (List Span) := list span "a sequence"

def DiagnosticFields.read (name : String) (s : DiagnosticFields) : Reader DiagnosticFields := do
  match name with
  | "level" => return { s with level := ← field name s.level Reader.level }
  | "short_message" => return { s with shortMessage := ← field name s.shortMessage text }
  | "long_message" => return { s with longMessage := ← field name s.longMessage (nullable text) }
  | "spans" => return { s with spans := ← field name s.spans Reader.spans }
  | "help" => return { s with help := ← field name s.help (nullable text) }
  | _ =>
    unknownField
    return s

def diagnostic : Reader Diagnostic :=
  let expected := "struct SpanDiagnostic with 5 elements"
  record "struct SpanDiagnostic"
    (do return {
      level := ← itemAt expected 0 level
      shortMessage := ← itemAt expected 1 text
      longMessage := ← itemAt expected 2 (nullable text)
      spans := ← itemAt expected 3 spans
      help := ← itemAt expected 4 (nullable text) })
    (do
      let s ← foldEntries DiagnosticFields.read {}
      return {
        level := ← required "level" s.level
        shortMessage := ← required "short_message" s.shortMessage
        longMessage := s.longMessage.join
        spans := ← required "spans" s.spans
        help := s.help.join })

end Json.Reader

end RuleTidy
