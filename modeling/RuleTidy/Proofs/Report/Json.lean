import RuleTidy.Proofs.Json.Reader.Record

/-! Diagnostics as JSON text. The text holds no line break, and the diagnostic is read back from
it. -/

namespace RuleTidy.Report

open Json Json.Reader Source Text

section Read

theorem reads_word32 (n : UInt32) : Reads word32 (writeWord n) n := by
  have h := (reads_natural "u32" n.toNat_lt (by decide)).map UInt32.ofNat
  rwa [UInt32.ofNat_toNat] at h

theorem readsValue_word8 (n : UInt8) : ReadsValue word8 (decimal n.toNat) n := by
  have h := (reads_natural "u8" n.toNat_lt (by decide)).map UInt8.ofNat
  rw [UInt8.ofNat_toNat] at h
  exact ⟨h, startsValue_decimal n.toNat⟩

theorem readsValue_text (text : String) : ReadsValue Reader.text (quote text) text :=
  ⟨reads_string "a string" text, startsValue_quote text⟩

theorem reads_wordPair (type first second : String) (hne : second ≠ first) (a b : UInt32) :
    Reads (wordPair type first second)
      (writeObject [(first, writeWord a), (second, writeWord b)]) (a, b) := by
  have hfirst := (reads_field first (reads_word32 a)).map fun word => (word, (none : Option UInt32))
  have hsecond := (reads_field second (reads_word32 b)).map fun word => (some a, word)
  refine reads_record (@Steps.cons _ _ _ _ _ _ (some a, none) _ ?_
    (.cons ?_ (.nil (some a, some b)))) rfl
  · dsimp only
    rw [if_pos rfl]
    exact hfirst
  · dsimp only
    rw [if_neg hne, if_pos rfl]
    exact hsecond

theorem reads_position (p : Position) : Reads position p.toJson p :=
  (reads_wordPair "struct Position" "line" "column" (by decide) p.line p.column).map
    fun pair => (⟨pair.1, pair.2⟩ : Position)

theorem readsValue_digest (digest : Digest) : ReadsValue Reader.digest digest.toJson digest := by
  refine ⟨fun rest _ => ?_, startsValue_writeList _⟩
  have hword : ∀ byte ∈ digest.bytes.toList, ReadsValue word8 (decimal byte.toNat) byte :=
    fun byte _ => readsValue_word8 byte
  have hbytes := itemsFrom_intercalate "an array of length 32" hword rest
  rw [Vector.length_toList] at hbytes
  have hvector : (Vector.ofFn fun i : Fin 32 => digest.bytes.toList.getD i 0) = digest.bytes := by
    apply Vector.ext
    intro i hi
    rw [Vector.getElem_ofFn]
    simp [List.getD, hi]
  rw [Digest.toJson, writeList_append]
  have hread := map_of_ok (enclosed_closeList hbytes) fun bytes : List UInt8 =>
    (⟨Vector.ofFn fun i : Fin 32 => bytes.getD i 0⟩ : Digest)
  rw [hvector] at hread
  exact hread

theorem readsValue_span (span : Span) : ReadsValue Reader.span span.toJson span := by
  refine ⟨?_, startsValue_writeObject _⟩
  have hfile : Reads (nullable Reader.text) (writeOption quote span.file) span.file :=
    reads_nullable fun text _ => readsValue_text text
  have hsource :
      Reads (nullable Reader.digest) (writeOption Digest.toJson span.source) span.source :=
    reads_nullable fun digest _ => readsValue_digest digest
  have hsteps : Steps SpanFields.read [
      ("start", span.start.toJson),
      ("end", span.stop.toJson),
      ("file", writeOption quote span.file),
      ("source", writeOption Digest.toJson span.source)] {}
      ⟨some span.start, some span.stop, some span.file, some span.source⟩ := by
    refine .cons ((reads_field "start" (reads_position span.start)).map
      fun start => (⟨start, none, none, none⟩ : SpanFields)) ?_
    refine .cons ((reads_field "end" (reads_position span.stop)).map
      fun stop => (⟨some span.start, stop, none, none⟩ : SpanFields)) ?_
    refine .cons ((reads_field "file" hfile).map
      fun file => (⟨some span.start, some span.stop, file, none⟩ : SpanFields)) ?_
    refine .cons ((reads_field "source" hsource).map
      fun source => (⟨some span.start, some span.stop, some span.file, source⟩ : SpanFields)) ?_
    exact .nil _
  exact reads_record hsteps rfl

theorem reads_level (level : Level) : Reads Reader.level level.toJson level := by
  refine reads_variant ?_
  cases level <;> rfl

theorem reads_spans (spans : List Span) :
    Reads Reader.spans (writeList (spans.map Span.toJson)) spans :=
  reads_list "a sequence" fun span _ => readsValue_span span

theorem reads_diagnostic (d : Diagnostic) : Reads Reader.diagnostic d.toJson d := by
  have hlong : Reads (nullable Reader.text) (writeOption quote d.longMessage) d.longMessage :=
    reads_nullable fun text _ => readsValue_text text
  have hhelp : Reads (nullable Reader.text) (writeOption quote d.help) d.help :=
    reads_nullable fun text _ => readsValue_text text
  have hsteps : Steps DiagnosticFields.read [
      ("level", d.level.toJson),
      ("short_message", quote d.shortMessage),
      ("long_message", writeOption quote d.longMessage),
      ("spans", writeList (d.spans.map Span.toJson)),
      ("help", writeOption quote d.help)] {}
      ⟨some d.level, some d.shortMessage, some d.longMessage, some d.spans, some d.help⟩ := by
    refine .cons ((reads_field "level" (reads_level d.level)).map
      fun level => (⟨level, none, none, none, none⟩ : DiagnosticFields)) ?_
    refine .cons ((reads_field "short_message" (readsValue_text d.shortMessage).reads).map
      fun short => (⟨some d.level, short, none, none, none⟩ : DiagnosticFields)) ?_
    refine .cons ((reads_field "long_message" hlong).map
      fun long => (⟨some d.level, some d.shortMessage, long, none, none⟩ : DiagnosticFields)) ?_
    refine .cons ((reads_field "spans" (reads_spans d.spans)).map
      fun spans => (⟨some d.level, some d.shortMessage, some d.longMessage, spans, none⟩ :
        DiagnosticFields)) ?_
    refine .cons ((reads_field "help" hhelp).map
      fun help => (⟨some d.level, some d.shortMessage, some d.longMessage, some d.spans, help⟩ :
        DiagnosticFields)) ?_
    exact .nil _
  exact reads_record hsteps rfl

end Read

section Write

theorem unbroken_position (p : Position) : Unbroken p.toJson :=
  unbroken_writeObject (by simp [writeWord, unbroken_decimal])

theorem unbroken_digest (digest : Digest) : Unbroken digest.toJson := by
  refine unbroken_writeList fun text htext => ?_
  obtain ⟨byte, -, rfl⟩ := List.mem_map.1 htext
  exact unbroken_decimal byte.toNat

theorem unbroken_span (span : Span) : Unbroken span.toJson := by
  have hfile := unbroken_writeOption (o := span.file) fun text _ => unbroken_quote text
  have hsource := unbroken_writeOption (o := span.source) fun digest _ => unbroken_digest digest
  refine unbroken_writeObject ?_
  simp [unbroken_position, hfile, hsource]

theorem unbroken_diagnostic (d : Diagnostic) : Unbroken d.toJson := by
  have hlong := unbroken_writeOption (o := d.longMessage) fun text _ => unbroken_quote text
  have hhelp := unbroken_writeOption (o := d.help) fun text _ => unbroken_quote text
  have hspans : Unbroken (writeList (d.spans.map Span.toJson)) := by
    refine unbroken_writeList fun text htext => ?_
    obtain ⟨span, -, rfl⟩ := List.mem_map.1 htext
    exact unbroken_span span
  refine unbroken_writeObject ?_
  simp [Level.toJson, unbroken_quote, hlong, hhelp, hspans]

end Write

end RuleTidy.Report
