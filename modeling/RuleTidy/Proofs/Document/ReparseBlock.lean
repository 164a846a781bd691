import RuleTidy.Proofs.Document.Reparse
import RuleTidy.Proofs.Yaml.Token.BlockScan

/-! Strings that are written in place of block scalars. A block holds more strings than the others
can, but its reader guesses the indentation from what it holds. -/

namespace RuleTidy.Document

open Source Text Yaml

/-- What a reader makes of a string that was written in place of a block scalar, with its lines
indented by `margin` and followed by `behind`. Where a block can hold the string and may end, it is
read back exactly if nothing in it is taken for something else. Any other string is in quotes, and
is read back wherever a scalar may end. -/
structure ReadsAsBlock (value margin behind : List Char) : Prop where
  block : ∀ written, Written.literalBlock? value margin = some written →
    ∀ (n : Nat) (parent : Int) (c : Cursor), margin = Block.margin n → parent < n →
      c.rest = written ++ behind → Block.Ends n behind →
        ((∃ token next, Block.scan true parent c = .ok (token, next) ∧
          token.kind = .scalar .literal (String.ofList value)) ↔ Block.Intact n value)
  quoted : Written.literalBlock? value margin = none →
    ∀ (flow : Bool) (indent : Int) (c : Cursor), c.rest = Written.doubleQuoted value ++ behind →
      ScalarEnds flow indent behind → indent ≤ c.column →
        ReadsAs .doubleQuoted value behind flow indent c

theorem readsAsBlock (value margin behind : List Char) : ReadsAsBlock value margin behind where
  block written hwritten n parent c hmargin hparent hrest hends := by
    obtain ⟨rows, ended, hrows, rfl⟩ := Block.literalBlock?_eq_some hwritten
    rw [hmargin] at hrest
    exact Block.scan_written hrows hrest hends hparent
  quoted _ flow indent c hrest hends hcolumn := by
    have hrender : c.rest = Written.render .doubleQuoted value margin ++ behind := hrest
    exact readsAs_render ⟨nofun, nofun⟩ hrender hends hcolumn

/-- The string that replaces a block scalar stands in its place, from the header on, as a block or
in quotes, and its reader makes of it what it can. -/
theorem readsAsBlock_replaceScalar {registry registry' : Registry} {text : String}
    {file : Option String} {d after : Document} {path : Path} {value : String} {info : Info}
    {old : Scalar} (hparse : Document.parse registry text file = (.ok d, registry'))
    (hfound : d.root.at? path = some (.scalar info old))
    (hlayout : info.layout = .scalar .literal ∨ info.layout = .scalar .folded)
    (hreplace : d.replaceScalar path value = .ok after) :
    ∃ start stop margin written behind,
      headerStart? text.toList (info.span.start.offset text.toList) = some start ∧
      stop = max (info.span.stop.offset text.toList) (info.span.start.offset text.toList) ∧
      margin = blockIndent text.toList (slice text.toList start stop) info.span.start ∧
      after.root.at? path = some (.scalar info (.string value)) ∧
      after.render.toList = text.toList.take start ++ (written ++ behind) ∧
      written =
        (Written.literalBlock? value.toList margin).getD (Written.doubleQuoted value.toList) ∧
      ReadsAsBlock value.toList margin behind := by
  obtain ⟨info', old', style, start, stop, margin, blanks, hfound', hlayout', hstart,
    ⟨hstop, hmargin⟩, -, hroot, hrender⟩ := render_replaceScalar hparse hreplace
  rw [hfound] at hfound'
  obtain ⟨rfl, rfl⟩ := Node.scalar.inj (Option.some.inj hfound')
  have hblock : style = .literal ∨ style = .folded := by
    rw [hlayout'] at hlayout
    exact hlayout.imp (fun h => Layout.scalar.inj h) (fun h => Layout.scalar.inj h)
  refine ⟨start, stop, margin, _, blanks ++ text.toList.drop stop, ?_, hstop, hmargin, hroot,
    hrender, ?_, readsAsBlock _ _ _⟩
  · rcases hblock with rfl | rfl <;> exact hstart
  · rcases hblock with rfl | rfl <;> rfl

/-- A folded scalar becomes a literal block, in which only a line that is not the first is indented
further. -/
theorem readsAsBlock_replaceScalar_folded :
    ∃ d registry' after, Document.parse .empty "a: >\n  b\nc: d\n" none = (.ok d, registry') ∧
      d.replaceScalar [.key "a"] "x\n\n y\n" = .ok after ∧
      after.render = "a: |\n  x\n\n   y\nc: d\n" ∧
      ∃ info margin behind, after.root.at? [.key "a"] = some (.scalar info (.string "x\n\n y\n")) ∧
        ReadsAsBlock "x\n\n y\n".toList margin behind := by
  have hrun : ((Document.parse .empty "a: >\n  b\nc: d\n" none).1.toOption.bind fun d =>
      (d.replaceScalar [.key "a"] "x\n\n y\n").toOption.map fun after =>
        ((d.root.at? [.key "a"]).map (·.layout), after.render)) =
          some (some (.scalar .folded), "a: |\n  x\n\n   y\nc: d\n") := by decide +kernel
  obtain ⟨d, registry', hparse, hrun⟩ := exists_parse_of_bind hrun
  cases hreplace : d.replaceScalar [.key "a"] "x\n\n y\n" with
  | error e => simp [hreplace, Except.toOption] at hrun
  | ok after =>
      obtain ⟨info, old, -, -, -, -, hfound, -⟩ := replaceScalar_eq_ok.1 hreplace
      simp only [hreplace, hfound, Except.toOption, Option.map_some, Option.some.injEq,
        Prod.mk.injEq] at hrun
      obtain ⟨start, stop, margin, written, behind, -, -, -, hroot, -, -, hreads⟩ :=
        readsAsBlock_replaceScalar hparse hfound (.inr hrun.1) hreplace
      exact ⟨d, registry', after, hparse, hreplace, hrun.2, info, margin, behind, hroot, hreads⟩

/-- An empty line hides a space at the start of the line after it, which is lost to the
indentation. -/
theorem not_readsBack_replaceScalar_block :
    ¬∀ (text : String) (d after : Document) (path : Path) (value : String) (info : Info)
        (old : Scalar),
      (Document.parse .empty text none).1 = .ok d → d.root.at? path = some (.scalar info old) →
        info.layout = .scalar .literal ∨ info.layout = .scalar .folded →
          d.replaceScalar path value = .ok after → after.ReadsBack := by
  intro h
  have hrun : ((Document.parse .empty "- |\n  b\n" none).1.toOption.bind fun d =>
      (d.replaceScalar [.index 0] "\n x\n").toOption.map fun after =>
        ((d.root.at? [.index 0]).map (·.layout), after.readings)) =
          some (some (.scalar .literal), some "[\"\\nx\\n\"]", "[\"\\n x\\n\"]") := by
    decide +kernel
  obtain ⟨d, registry', hparse, hrun⟩ := exists_parse_of_bind hrun
  cases hreplace : d.replaceScalar [.index 0] "\n x\n" with
  | error e => simp [hreplace, Except.toOption] at hrun
  | ok after =>
      obtain ⟨info, old, -, -, -, -, hfound, -⟩ := replaceScalar_eq_ok.1 hreplace
      simp only [hreplace, hfound, Except.toOption, Option.map_some, Option.some.injEq,
        Prod.mk.injEq] at hrun
      obtain ⟨hlayout, hreadings⟩ := hrun
      have hreads := fst_readings (h _ d after _ _ info old (congrArg Prod.fst hparse) hfound
        (.inl hlayout) hreplace)
      rw [hreadings] at hreads
      exact absurd hreads (by decide)

end RuleTidy.Document
